import Mathlib
import MailRules.Proofs.Rule.Mistake
import MailRules.Proofs.Rule.Matching

/-!
# A rule and its dual

Every predicate has an opposite, and so have the two aggregations. The dual of a rule has them all
turned over. Of two texts one predicate says what its opposite denies, but a date is neither younger
nor older than an age it has reached exactly. So a condition and its dual never hold together, and
the only conditions of which neither holds are those at their threshold (`Condition.dual_cases`).

What all are asked for is denied where any one is not (`Aggregation.asks_dual_not`), and with this a
rule and its dual never fire together. Neither of the two fires exactly if both would with the
thresholds counted in (`Rule.Undecided`). For this a threshold has to be met in the rule. The faults
of the two are the same, as the target and the date are looked at alike whichever way they are
compared (`Rule.fires_dual`).
-/

namespace MailRules

variable {r : Record} {moment : Moment}

/-! ## Opposites -/

def Aggregation.dual : Aggregation → Aggregation
  | .all => .any
  | .any => .all

def TextPredicate.dual : TextPredicate → TextPredicate
  | .contains => .lacks
  | .lacks => .contains
  | .equals => .differs
  | .differs => .equals

def DatePredicate.dual : DatePredicate → DatePredicate
  | .younger => .older
  | .older => .younger

/-- The name of the opposite predicate. What is no predicate's name has no opposite. -/
def oppositeName : String → String
  | "contains" => "does_not_contains"
  | "does_not_contains" => "contains"
  | "equals" => "does_not_equals"
  | "does_not_equals" => "equals"
  | "less_than" => "greater_than"
  | "greater_than" => "less_than"
  | name => name

theorem oppositeName_oppositeName (name : String) : oppositeName (oppositeName name) = name := by
  rw [oppositeName.eq_def name]
  split
  iterate 6 rfl
  rw [oppositeName.eq_def]
  split <;> simp_all

theorem TextPredicate.named?_oppositeName (name : String) :
    named? (oppositeName name) = (named? name).map dual := by
  rw [oppositeName.eq_def]
  split
  iterate 6 rfl
  rw [named?.eq_def]
  split <;> simp_all

theorem DatePredicate.named?_oppositeName (name : String) :
    named? (oppositeName name) = (named? name).map dual := by
  rw [oppositeName.eq_def]
  split
  iterate 6 rfl
  rw [named?.eq_def]
  split <;> simp_all

theorem TextPredicate.holds_dual (p : TextPredicate) (value target : String) :
    p.dual.holds value target = !p.holds value target := by
  cases p with
  | contains => rfl
  | lacks => exact (Bool.not_not _).symm
  | equals => rfl
  | differs => exact (Bool.not_not _).symm

/-- A date is younger or older, and it is neither only at the threshold. -/
theorem DatePredicate.holds_dual_cases (p : DatePredicate)
    (received threshold : Calendar.Instant) :
    p.dual.holds received threshold = !p.holds received threshold ∧ received ≠ threshold ∨
      p.holds received threshold = false ∧ p.dual.holds received threshold = false ∧
        received = threshold := by
  by_cases heq : received = threshold
  · subst heq
    refine Or.inr ⟨?_, ?_, rfl⟩
    · cases p <;> exact received.before_irrefl
    · cases p <;> exact received.before_irrefl
  · have hapart : received.before threshold = !threshold.before received := by
      cases h : threshold.before received with
      | true => exact Calendar.Instant.before_asymm h
      | false =>
        refine Bool.not_eq_false _ |>.mp fun h' ↦ heq (Calendar.Instant.eq_of_not_before h' h)
    refine Or.inl ⟨?_, heq⟩
    cases p with
    | younger => exact hapart
    | older => rw [dual, holds, holds, hapart, Bool.not_not]

/-! ## Conditions -/

/-- Fields of this kind have a predicate of this name. -/
def Kind.knows : Kind → String → Bool
  | .text, name => (TextPredicate.named? name).isSome
  | .date, name => (DatePredicate.named? name).isSome

namespace Condition

variable {c : Condition}

def dual (c : Condition) : Condition := { c with predicate := oppositeName c.predicate }

theorem dual_dual (c : Condition) : c.dual.dual = c := by
  simp only [dual, oppositeName_oppositeName]

theorem knows_dual (h : c.field.kind.knows c.predicate = true) :
    c.dual.field.kind.knows c.dual.predicate = true := by
  rw [dual]
  cases hkind : c.field.kind with
  | text =>
    rw [hkind, Kind.knows] at h
    rw [Kind.knows, TextPredicate.named?_oppositeName, Option.isSome_map, h]
  | date =>
    rw [hkind, Kind.knows] at h
    rw [Kind.knows, DatePredicate.named?_oppositeName, Option.isSome_map, h]

/-- The date of the record is the one that the target's age leads back to. -/
def AtThreshold (c : Condition) (r : Record) (moment : Moment) : Prop :=
  c.field.kind = .date ∧
    ∃ t, threshold moment.now c.target = .ok t ∧ receivedAt moment.zone r.received = .ok t

/-- **A condition and its dual** fail alike, or one of them holds, or they are at the threshold. -/
theorem dual_cases (h : c.field.kind.knows c.predicate = true) (r : Record) (moment : Moment) :
    (∃ fault, c.evaluate r moment = .error fault ∧ c.dual.evaluate r moment = .error fault) ∨
    (∃ b, c.evaluate r moment = .ok b ∧ c.dual.evaluate r moment = .ok !b) ∧
        ¬c.AtThreshold r moment ∨
      c.evaluate r moment = .ok false ∧ c.dual.evaluate r moment = .ok false ∧
        c.AtThreshold r moment := by
  cases hkind : c.field.kind with
  | text =>
    rw [hkind] at h
    obtain ⟨p, hp⟩ := Option.isSome_iff_exists.mp h
    have hdual : TextPredicate.named? c.dual.predicate = some p.dual := by
      rw [dual, TextPredicate.named?_oppositeName, hp, Option.map_some]
    refine Or.inr (Or.inl ⟨⟨p.holds (r.get c.field) c.target, ?_, ?_⟩, ?_⟩)
    · rw [evaluate_of_text hkind, evaluateText, hp]
    · rw [evaluate_of_text (c := c.dual) hkind, evaluateText, hdual, ← TextPredicate.holds_dual]
      rfl
    · rintro ⟨hdate, -⟩
      rw [hkind] at hdate
      cases hdate
  | date =>
    rw [hkind] at h
    obtain ⟨p, hp⟩ := Option.isSome_iff_exists.mp h
    have hdual : DatePredicate.named? c.dual.predicate = some p.dual := by
      rw [dual, DatePredicate.named?_oppositeName, hp, Option.map_some]
    have htarget : c.dual.target = c.target := rfl
    rw [evaluate_of_date hkind, evaluate_of_date (c := c.dual) hkind, evaluateDate_of_named hp,
      evaluateDate_of_named hdual, htarget]
    -- the target comes first and then the date, whichever way the two are compared
    cases hthreshold : threshold moment.now c.target with
    | error fault => exact Or.inl ⟨fault, rfl, rfl⟩
    | ok t =>
      cases hreceived : receivedAt moment.zone r.received with
      | error fault => exact Or.inl ⟨fault, rfl, rfl⟩
      | ok received =>
        have hat : c.AtThreshold r moment ↔ received = t := by
          simp [AtThreshold, hkind, hthreshold, hreceived, eq_comm]
        rw [hat]
        rcases p.holds_dual_cases received t with ⟨hopposite, hne⟩ | ⟨hfalse, hfalse', heq⟩
        · refine Or.inr (Or.inl ⟨⟨p.holds received t, rfl, ?_⟩, hne⟩)
          rw [← hopposite]
          rfl
        · exact Or.inr (Or.inr ⟨congrArg Except.ok hfalse, congrArg Except.ok hfalse', heq⟩)

theorem evaluate_dual_eq_error_iff (h : c.field.kind.knows c.predicate = true)
    {fault : ConditionFault} :
    c.dual.evaluate r moment = .error fault ↔ c.evaluate r moment = .error fault := by
  rcases dual_cases h r moment with ⟨e, he, he'⟩ | ⟨⟨b, hb, hb'⟩, -⟩ | ⟨hb, hb', -⟩
  · rw [he, he']
  · simp [hb, hb']
  · simp [hb, hb']

theorem evaluates_dual_iff (h : c.field.kind.knows c.predicate = true) :
    c.dual.Evaluates r moment ↔ c.Evaluates r moment := by
  rw [← not_iff_not, not_evaluates_iff, not_evaluates_iff]
  exact exists_congr fun fault ↦ evaluate_dual_eq_error_iff h

/-- Where a condition can be evaluated, its dual is what it denies, the threshold apart. -/
theorem not_holds_iff (h : c.field.kind.knows c.predicate = true) (hok : c.Evaluates r moment) :
    ¬c.Holds r moment ↔ c.dual.Holds r moment ∨ c.AtThreshold r moment := by
  obtain ⟨holds, hholds⟩ := hok
  unfold Holds
  rcases dual_cases h r moment with ⟨e, he, -⟩ | ⟨⟨b, hb, hb'⟩, hat⟩ | ⟨hb, hb', hat⟩
  · rw [he] at hholds
    cases hholds
  · simp [hb, hb', hat]
  · simp [hb, hb', hat]

theorem not_dual_holds_iff (h : c.field.kind.knows c.predicate = true)
    (hok : c.Evaluates r moment) :
    ¬c.dual.Holds r moment ↔ c.Holds r moment ∨ c.AtThreshold r moment := by
  have hdual := not_holds_iff (c := c.dual) (knows_dual h) ((evaluates_dual_iff h).mpr hok)
  rwa [dual_dual] at hdual

end Condition

/-! ## Rules -/

namespace Aggregation

variable {α : Type} {l : List α} {holds holds' : α → Prop}

theorem dual_dual (a : Aggregation) : a.dual.dual = a := by cases a <;> rfl

theorem Asks.imp {a : Aggregation} (h : a.Asks l holds) (himp : ∀ x ∈ l, holds x → holds' x) :
    a.Asks l holds' := by
  cases a with
  | all => exact fun x hx ↦ himp x hx (h x hx)
  | any =>
    obtain ⟨x, hx, hholds⟩ := h
    exact ⟨x, hx, himp x hx hholds⟩

theorem asks_congr (a : Aggregation) (h : ∀ x ∈ l, holds x ↔ holds' x) :
    a.Asks l holds ↔ a.Asks l holds' :=
  ⟨fun hasks ↦ hasks.imp fun x hx ↦ (h x hx).mp, fun hasks ↦ hasks.imp fun x hx ↦ (h x hx).mpr⟩

/-- **De Morgan's laws.** -/
theorem asks_dual_not (a : Aggregation) (l : List α) (holds : α → Prop) :
    (a.dual.Asks l fun x ↦ ¬holds x) ↔ ¬a.Asks l holds := by
  cases a <;> simp [dual, Asks]

end Aggregation

namespace Rule

def dual (rule : Rule) : Rule :=
  { rule with aggregation := rule.aggregation.dual, conditions := rule.conditions.map .dual }

/-- The rule would fire with thresholds counted in, and so would its dual. -/
def Undecided (rule : Rule) (r : Record) (moment : Moment) : Prop :=
  (rule.aggregation.Asks rule.conditions fun c ↦ c.Holds r moment ∨ c.AtThreshold r moment) ∧
    rule.aggregation.dual.Asks rule.conditions fun c ↦
      c.dual.Holds r moment ∨ c.AtThreshold r moment

variable {rule : Rule} (known : ∀ c ∈ rule.conditions, c.field.kind.knows c.predicate = true)
include known

theorem fires_dual_eq_error_iff {fault : ConditionFault} :
    rule.dual.fires r moment = .error fault ↔ rule.fires r moment = .error fault := by
  rw [fires_eq_error_iff, fires_eq_error_iff, Errs, Errs, dual]
  exact FirstAt.exists_map_iff fun c hc ↦
    ⟨Condition.evaluates_dual_iff (known c hc), Condition.evaluate_dual_eq_error_iff (known c hc)⟩

theorem fires_dual_eq_ok_iff {b : Bool} :
    rule.dual.fires r moment = .ok b ↔ (∀ c ∈ rule.conditions, c.Evaluates r moment) ∧
      (b = true ↔ rule.aggregation.dual.Asks rule.conditions (·.dual.Holds r moment)) := by
  rw [fires_eq_ok_iff, dual, Aggregation.asks_map, List.forall_mem_map]
  exact and_congr_left' (forall₂_congr fun c hc ↦ Condition.evaluates_dual_iff (known c hc))

section Evaluates

variable (hok : ∀ c ∈ rule.conditions, c.Evaluates r moment)
include hok

/-- What a rule asks for is denied where its dual would fire with the thresholds counted in. -/
theorem not_asks_iff :
    ¬rule.aggregation.Asks rule.conditions (·.Holds r moment) ↔
      rule.aggregation.dual.Asks rule.conditions fun c ↦
        c.dual.Holds r moment ∨ c.AtThreshold r moment := by
  rw [← Aggregation.asks_dual_not]
  exact Aggregation.asks_congr _ fun c hc ↦ Condition.not_holds_iff (known c hc) (hok c hc)

theorem not_asks_dual_iff :
    ¬rule.aggregation.dual.Asks rule.conditions (·.dual.Holds r moment) ↔
      rule.aggregation.Asks rule.conditions fun c ↦
        c.Holds r moment ∨ c.AtThreshold r moment := by
  rw [← Aggregation.asks_dual_not, Aggregation.dual_dual]
  exact Aggregation.asks_congr _ fun c hc ↦ Condition.not_dual_holds_iff (known c hc) (hok c hc)

/-- Neither of the two is asked for exactly if both are with the thresholds counted in. -/
theorem neither_asks_iff :
    ¬rule.aggregation.Asks rule.conditions (·.Holds r moment) ∧
        ¬rule.aggregation.dual.Asks rule.conditions (·.dual.Holds r moment) ↔
      rule.Undecided r moment := by
  rw [not_asks_iff known hok, not_asks_dual_iff known hok]
  exact and_comm

theorem not_both_ask (h : rule.aggregation.Asks rule.conditions (·.Holds r moment)) :
    ¬rule.aggregation.dual.Asks rule.conditions (·.dual.Holds r moment) :=
  (not_asks_dual_iff known hok).mpr (h.imp fun _ _ ↦ Or.inl)

end Evaluates

/-- Away from all thresholds one of the two is asked for. -/
theorem not_undecided (hok : ∀ c ∈ rule.conditions, c.Evaluates r moment)
    (hat : ∀ c ∈ rule.conditions, ¬c.AtThreshold r moment) : ¬rule.Undecided r moment := by
  rintro ⟨hasks, hdual⟩
  have h := hasks.imp fun c hc h ↦ h.resolve_right (hat c hc)
  exact not_both_ask known hok h (hdual.imp fun c hc h ↦ h.resolve_right (hat c hc))

/-- **De Morgan's laws for rules.** A rule whose predicates are all known and its dual have the same
fault or none. If they have none, they never fire together, and neither of them fires exactly if
both would with the thresholds counted in, which takes a condition at its threshold. -/
theorem fires_dual (r : Record) (moment : Moment) :
    (∃ fault, rule.fires r moment = .error fault ∧ rule.dual.fires r moment = .error fault) ∨
      ∃ b b', rule.fires r moment = .ok b ∧ rule.dual.fires r moment = .ok b' ∧
        ¬(b = true ∧ b' = true) ∧
        (b = false ∧ b' = false ↔ rule.Undecided r moment) ∧
        ((∀ c ∈ rule.conditions, ¬c.AtThreshold r moment) → b' = !b) := by
  cases hfires : rule.fires r moment with
  | error fault => exact Or.inl ⟨fault, rfl, (fires_dual_eq_error_iff known).mpr hfires⟩
  | ok b =>
    cases hdual : rule.dual.fires r moment with
    | error fault =>
      rw [(fires_dual_eq_error_iff known).mp hdual] at hfires
      cases hfires
    | ok b' =>
      obtain ⟨hok, hasks⟩ := fires_eq_ok_iff.mp hfires
      have hasks' := ((fires_dual_eq_ok_iff known).mp hdual).2
      have hboth : ¬(b = true ∧ b' = true) := by
        rw [hasks, hasks']
        exact fun h ↦ not_both_ask known hok h.1 h.2
      have hneither : b = false ∧ b' = false ↔ rule.Undecided r moment := by
        rw [← neither_asks_iff known hok, ← hasks, ← hasks', Bool.not_eq_true, Bool.not_eq_true]
      refine Or.inr ⟨b, b', rfl, rfl, hboth, hneither, fun hat ↦ ?_⟩
      have hsome := mt hneither.mp (not_undecided known hok hat)
      cases b <;> cases b' <;> simp_all

omit known

/-- A message that is a day old to the second, by a rule about younger ones. -/
theorem fires_dual_of_day_old :
    let rule : Rule :=
      ⟨.any, [⟨.subject, "contains", "news"⟩, ⟨.received, "less_than", "1 days"⟩], []⟩
    let r : Record := ⟨"1", "", "", "mail", "2024-06-09T12:00:00Z"⟩
    let moment : Moment := ⟨⟨1718020800, 0⟩, .utc⟩
    (∀ c ∈ rule.conditions, c.field.kind.knows c.predicate = true) ∧
      rule.dual = ⟨.all, [⟨.subject, "does_not_contains", "news"⟩,
        ⟨.received, "greater_than", "1 days"⟩], []⟩ ∧
      rule.fires r moment = .ok false ∧ rule.dual.fires r moment = .ok false ∧
      rule.Undecided r moment := by
  intro rule r moment
  have known : ∀ c ∈ rule.conditions, c.field.kind.knows c.predicate = true := by decide
  have hfires : rule.fires r moment = .ok false := by decide +kernel
  have hdual : rule.dual.fires r moment = .ok false := by decide +kernel
  rcases fires_dual known r moment with ⟨fault, hfault, -⟩ | ⟨b, b', hb, hb', -, hneither, -⟩
  · rw [hfires] at hfault
    cases hfault
  · rw [hfires, Except.ok.injEq] at hb
    rw [hdual, Except.ok.injEq] at hb'
    exact ⟨known, rfl, hfires, hdual, hneither.mp ⟨hb.symm, hb'.symm⟩⟩

end Rule

end MailRules
