import Mathlib
import MailRules.Rule.Condition
import MailRules.Proofs.Text.Utf8

/-!
# What a text contains

A text is searched for another at each of its places in turn, and the other is found exactly if
there is a stretch of it that is the other, character by character (`occursIn_eq_true_iff`). From
there on containment is what it is for lists: whatever is contained in something is contained in
what contains that, and two texts that contain each other are one.

It is the characters that are compared and not what they look like, so letters in another case or
composed otherwise are others. But nothing else would be found if their bytes were compared, since
the bytes of a text begin with one that is the first of a character, and so nowhere inside one
(`Text.Utf8.encoded_infix_iff`).
-/

namespace MailRules

open Text

variable {value target part : String}

/-! ## The search -/

theorem occursIn_eq_true_iff {target s : List Char} : occursIn target s = true ↔ target <:+: s := by
  induction s with
  | nil => simp [occursIn]
  | cons c s ih =>
    rw [occursIn, Bool.or_eq_true, List.isPrefixOf_iff_prefix, ih, List.infix_cons_iff]

theorem toList_infix_iff :
    target.toList <:+: value.toList ↔ ∃ before after, value = before ++ target ++ after := by
  constructor
  · rintro ⟨before, after, h⟩
    refine ⟨String.ofList before, String.ofList after, String.toList_inj.mp ?_⟩
    rw [String.toList_append, String.toList_append, String.toList_ofList, String.toList_ofList, h]
  · rintro ⟨before, after, rfl⟩
    rw [String.toList_append, String.toList_append]
    exact List.infix_append _ _ _

/-! ## The predicates -/

/-- The value contains the target, as the predicate of that name has it. -/
def Contains (value target : String) : Prop := evaluateText value "contains" target = .ok true

theorem evaluateText_contains (value target : String) :
    evaluateText value "contains" target = .ok (occursIn target.toList value.toList) := rfl

theorem evaluateText_lacks (value target : String) :
    evaluateText value "does_not_contains" target = .ok !occursIn target.toList value.toList := rfl

theorem evaluateText_equals (value target : String) :
    evaluateText value "equals" target = .ok (value == target) := rfl

theorem contains_iff : Contains value target ↔ target.toList <:+: value.toList := by
  rw [Contains, evaluateText_contains, Except.ok.injEq, occursIn_eq_true_iff]

theorem Contains.trans (h : Contains value target) (h' : Contains target part) :
    Contains value part :=
  contains_iff.mpr ((contains_iff.mp h').trans (contains_iff.mp h))

theorem contains_self (value : String) : Contains value value := contains_iff.mpr List.infix_rfl

theorem contains_empty (value : String) : Contains value "" := contains_iff.mpr List.nil_infix

theorem Contains.antisymm (h : Contains value target) (h' : Contains target value) :
    value = target :=
  String.toList_inj.mp (List.infix_antisymm (contains_iff.mp h') (contains_iff.mp h))

theorem contains_of_equals (h : evaluateText value "equals" target = .ok true) :
    Contains value target := by
  rw [evaluateText_equals, Except.ok.injEq, beq_iff_eq] at h
  rw [h]
  exact contains_self target

/-- **A text contains exactly its stretches.** Whether it does is always answered, it makes no
difference whether characters or bytes are compared, and the opposite predicate says the opposite.
Every text contains itself and the empty one, it contains what is contained in what it contains and
whatever it equals, and two texts that contain each other are equal. -/
theorem evaluateText_contains_exact (value target : String) :
    (∃ found, evaluateText value "contains" target = .ok found ∧
      evaluateText value "does_not_contains" target = .ok !found ∧
      (found = true ↔ ∃ before after, value = before ++ target ++ after) ∧
      (found = true ↔ Utf8.encoded target.toList <:+: Utf8.encoded value.toList)) ∧
    Contains value "" ∧ Contains value value ∧
    (∀ part, Contains value target → Contains target part → Contains value part) ∧
    (evaluateText value "equals" target = .ok true → Contains value target) ∧
    (Contains value target → Contains target value → value = target) := by
  refine ⟨⟨_, evaluateText_contains value target, evaluateText_lacks value target, ?_, ?_⟩,
    contains_empty value, contains_self value, fun _ ↦ Contains.trans, contains_of_equals,
    Contains.antisymm⟩
  · rw [occursIn_eq_true_iff, toList_infix_iff]
  · rw [occursIn_eq_true_iff, Utf8.encoded_infix_iff]

/-- A place where the target begins in a longer stretch that looks like it. -/
example : evaluateText "aabaabaac" "contains" "aabaac" = .ok true := by decide +kernel

end MailRules
