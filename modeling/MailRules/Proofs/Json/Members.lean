import Mathlib
import MailRules.Proofs.Json.Typed

/-!
# Objects with other members

A typed reader of objects goes by keys. Whatever stands under a key that it does not know is passed
over, however deep it is; a known key may be missing where the field says so, and may come once.
`Codec.Tolerates` says both of a codec: it reads every value from every tree that has the form of
it, and it reads nothing from a tree in which a known key is repeated.

The form of an object speaks of its members by key (`Tree.Holds`) and so neither of their order nor
of any others. What the keys are at every level is a `Schema`, and `Repeats` finds a key that comes
twice at any of them. Both are proved combinator by combinator, and for a record field by field
(`Row.Tolerates.cons`), from the same fact about the walk over the members: the slot of one field
and those of the rest do not see each other's members.
-/

namespace MailRules.Json

open MailRules.Text

/-! ## Forms -/

namespace Tree

/-- An integer of 64 bits without a sign. -/
def IsUnsigned (t : Tree) (n : ℕ) : Prop := t = .number (writtenInt n) ∧ n < 2 ^ 64

/-- An integer of 64 bits with a sign. -/
def IsSigned (t : Tree) (n : ℤ) : Prop :=
  t = .number (writtenInt n) ∧ -2 ^ 63 ≤ n ∧ n < 2 ^ 63

/-- A null, or a value of the form. -/
def IsOption {α : Type} (form : Tree → α → Prop) (t : Tree) (o : Option α) : Prop :=
  (o = none ∧ t = .word .null) ∨ ∃ x, o = some x ∧ form t x

/-- One member has the key, and its value has the form of `x`; or none has the key, and that means
`x`. -/
def Holds {α : Type} (members : List (String × Tree)) (key : String) (form : Tree → α → Prop)
    (absent : Option α) (x : α) : Prop :=
  (absent = some x ∧ ∀ m ∈ members, m.1 ≠ key) ∨ ∃ t, Once members key t ∧ form t x

/-- An object whose members, with what their keys mean, are like this. -/
def IsObject (held : List (String × Tree) → Prop) (t : Tree) : Prop :=
  ∃ members named, t = .object members ∧ Named members named ∧ held named

theorem IsObject.imp {held held' : List (String × Tree) → Prop} {t : Tree}
    (h : t.IsObject held) (himp : ∀ ms, held ms → held' ms) : t.IsObject held' := by
  obtain ⟨members, named, rfl, hnamed, hheld⟩ := h
  exact ⟨members, named, rfl, hnamed, himp _ hheld⟩

end Tree

/-- The known keys of a value, level by level. -/
inductive Schema
  | leaf
  | list (item : Schema)
  | record (fields : List (String × Schema))

/-- Somewhere in the tree, where the schema knows a key, two members have it. -/
inductive Repeats : Schema → Tree → Prop
  | twice {fields : List (String × Schema)} {members : List (List Char × Tree)}
      {named : List (String × Tree)} {key : String} (known : key ∈ fields.map Prod.fst)
      (names : Tree.Named members named) (two : 2 ≤ (named.map Prod.fst).count key) :
      Repeats (.record fields) (.object members)
  | member {fields : List (String × Schema)} {members : List (List Char × Tree)}
      {named : List (String × Tree)} {key : String} {schema : Schema} {t : Tree}
      (known : (key, schema) ∈ fields) (names : Tree.Named members named) (mem : (key, t) ∈ named)
      (inside : Repeats schema t) : Repeats (.record fields) (.object members)
  | item {item : Schema} {ts : List Tree} {t : Tree} (mem : t ∈ ts) (inside : Repeats item t) :
      Repeats (.list item) (.array ts)

/-- The codec reads what has the form, and nothing in which a known key is repeated. -/
structure Codec.Tolerates {α : Type} (codec : Codec α) (schema : Schema)
    (form : Tree → α → Prop) : Prop where
  accepts : ∀ ⦃node t⦄, Shows node t → ∀ x, form t x → codec.read node = .ok x
  refuses : ∀ ⦃node t⦄, Shows node t → Repeats schema t → ∀ x, codec.read node ≠ .ok x

/-! ## Values without members -/

namespace Codec

variable {α : Type} {codec : Codec α} {schema : Schema} {form form' : Tree → α → Prop}

theorem Tolerates.imp (h : codec.Tolerates schema form) (himp : ∀ t x, form' t x → form t x) :
    codec.Tolerates schema form' where
  accepts _ t hshows x hform := h.accepts hshows x (himp t x hform)
  refuses := h.refuses

/-- There is no member in a leaf. -/
theorem tolerates_leaf
    (haccepts : ∀ ⦃node t⦄, Shows node t → ∀ x, form t x → codec.read node = .ok x) :
    codec.Tolerates .leaf form where
  accepts := haccepts
  refuses _ _ _ hrepeats := by cases hrepeats

theorem Takes.tolerates (h : codec.Takes form) : codec.Tolerates .leaf form :=
  tolerates_leaf fun _ _ hshows x ↦ (h hshows x).mpr

theorem tolerates_natural : natural.Tolerates .leaf Tree.IsUnsigned := by
  refine tolerates_leaf ?_
  rintro node t hshows n ⟨rfl, hlimit⟩
  cases hshows with
  | number same =>
    rw [same.eq_writtenNumber, natural]
    dsimp only
    rw [kept_writtenNumber hlimit]
    rfl

/-- A negative number of 63 bits stays what it is. -/
theorem kept_writtenNumber_neg {n : ℕ} (hpos : 0 < n) (h : n ≤ 2 ^ 63) :
    (writtenNumber (-n)).kept = .ok (.negative n) := by
  have hvalue : (Nat.toDigits 10 n).foldl (fun n c ↦ 10 * n + digitValue c) 0 = n :=
    Nat.ofDigitChars_toDigits (by decide) (by decide)
  have hlimit : n < Number.limit := h.trans_lt (by decide)
  have htake : Number.take 0 (Nat.toDigits 10 n) = _ := Number.take_of_lt (hvalue.symm ▸ hlimit)
  rw [hvalue] at htake
  have hpow : n ≤ Nat.pow 2 63 := h
  simp [writtenNumber, Number.ofParts, htake, hpos, hpow]

theorem tolerates_integer : integer.Tolerates .leaf Tree.IsSigned := by
  refine tolerates_leaf ?_
  rintro node t hshows n ⟨rfl, hlow, hhigh⟩
  cases hshows with
  | number same =>
    rw [same.eq_writtenNumber, integer]
    dsimp only
    rcases Int.eq_nat_or_neg n with ⟨k, rfl | rfl⟩
    · have hlimit : k < Number.limit := by
        rw [Number.limit]
        norm_num
        omega
      have hfits : k < Nat.pow 2 63 := by
        norm_num
        omega
      rw [kept_writtenNumber hlimit]
      exact if_pos hfits
    · rcases Nat.eq_zero_or_pos k with rfl | hpos
      · rfl
      · rw [kept_writtenNumber_neg hpos (by omega)]
        rfl

theorem option_read {node : Node} (h : ∀ skipped, node ≠ .word ⟨.ok .null, skipped⟩) :
    codec.option.read node = some <$> codec.read node := by
  unfold option
  dsimp only
  split
  · exact absurd rfl (h _)
  · rfl

theorem ne_null_of_shows {node : Node} {t : Tree} (h : Shows node t) (hnull : t ≠ .word .null)
    (skipped : Except Trouble Unit) : node ≠ .word ⟨.ok .null, skipped⟩ := by
  rintro rfl
  cases h
  exact hnull rfl

theorem Tolerates.option (h : codec.Tolerates schema form)
    (hnull : ∀ x, ¬form (.word .null) x) :
    codec.option.Tolerates schema (Tree.IsOption form) where
  accepts := by
    rintro node t hshows o (⟨rfl, rfl⟩ | ⟨x, rfl, hform⟩)
    · cases hshows
      rfl
    · have hne : t ≠ .word .null := by
        rintro rfl
        exact hnull x hform
      rw [option_read (ne_null_of_shows hshows hne), h.accepts hshows x hform]
      rfl
  refuses := by
    intro node t hshows hrepeats o hread
    have hne : t ≠ .word .null := by
      rintro rfl
      cases hrepeats
    rw [option_read (ne_null_of_shows hshows hne)] at hread
    obtain ⟨x, hx, -⟩ := map_eq_ok_iff.mp hread
    exact h.refuses hshows hrepeats x hx

theorem readItems_eq_ok_iff_forall₂ {nodes : List Node} {xs : List α} :
    readItems codec nodes = .ok xs ↔
      List.Forall₂ (fun node x ↦ codec.read node = .ok x) nodes xs := by
  induction nodes generalizing xs with
  | nil => simp [readItems, eq_comm]
  | cons node nodes ih =>
    simp only [readItems, bind_eq_ok_iff, pure_eq_ok_iff, ih, List.forall₂_cons_left_iff]
    simp [eq_comm]

theorem list_read_eq_ok_iff {nodes : List Node} {xs : List α} :
    codec.list.read (.array nodes .closed) = .ok xs ↔
      List.Forall₂ (fun node x ↦ codec.read node = .ok x) nodes xs := by
  rw [← readItems_eq_ok_iff_forall₂]
  simp [Codec.list, Ending.check, bind_eq_ok_iff]

theorem Tolerates.list (h : codec.Tolerates schema form) :
    codec.list.Tolerates (.list schema) (Tree.IsList form) where
  accepts := by
    rintro node t hshows xs ⟨ts, rfl, hforms⟩
    cases hshows with
    | array items =>
      rw [list_read_eq_ok_iff]
      induction items generalizing xs with
      | nil =>
        cases hforms
        exact .nil
      | cons hnode _ ih =>
        cases hforms with
        | cons hform hforms => exact .cons (h.accepts hnode _ hform) (ih _ hforms)
  refuses := by
    rintro node t hshows hrepeats xs hread
    cases hrepeats with
    | item mem inside =>
      cases hshows with
      | array items =>
        rw [list_read_eq_ok_iff] at hread
        induction items generalizing xs with
        | nil => cases mem
        | cons hnode _ ih =>
          cases hread with
          | cons hx hxs =>
            rcases List.mem_cons.mp mem with rfl | mem
            · exact h.refuses hnode inside _ hx
            · exact ih _ mem hxs

end Codec

/-! ## Records -/

section Once

variable {α : Type} {members : List (String × α)} {key : String} {x y : α}

theorem Once.eq_of_mem (h : Once members key x) (hmem : (key, y) ∈ members) : y = x := by
  obtain ⟨before, after, rfl, hother⟩ := h
  rw [List.mem_append, List.mem_cons, ← or_assoc, or_right_comm, ← List.mem_append] at hmem
  rcases hmem with hmem | heq
  · exact absurd rfl (hother _ hmem)
  · exact (Prod.mk.inj heq).2

theorem Once.count_eq (h : Once members key x) : (members.map Prod.fst).count key = 1 := by
  obtain ⟨before, after, rfl, hother⟩ := h
  have hnone (ms : List (String × α)) (hms : ∀ m ∈ ms, m ∈ before ++ after) :
      (ms.map Prod.fst).count key = 0 := by
    rw [List.count_eq_zero, List.mem_map]
    rintro ⟨m, hm, hkey⟩
    exact hother m (hms m hm) hkey
  rw [List.map_append, List.map_cons, List.count_append, List.count_cons_self,
    hnone before fun _ ↦ List.mem_append_left _, hnone after fun _ ↦ List.mem_append_right _]

end Once

section ShowsNamed

variable {ms : List (String × Node)} {ts : List (String × Tree)} {key : String} {t : Tree}

theorem ShowsNamed.keys_eq (h : ShowsNamed ms ts) : ms.map Prod.fst = ts.map Prod.fst := by
  induction h with
  | nil => rfl
  | cons hm _ ih => rw [List.map_cons, List.map_cons, hm.1, ih]

theorem ShowsNamed.exists_mem (h : ShowsNamed ms ts) (hmem : (key, t) ∈ ts) :
    ∃ node, (key, node) ∈ ms ∧ Shows node t := by
  induction h with
  | nil => cases hmem
  | @cons m n ms ts hm _ ih =>
    rcases List.mem_cons.mp hmem with rfl | hmem
    · exact ⟨m.2, List.mem_cons.mpr (Or.inl (Prod.ext hm.1.symm rfl)), hm.2⟩
    · obtain ⟨node, hnode, hshows⟩ := ih hmem
      exact ⟨node, List.mem_cons_of_mem _ hnode, hshows⟩

theorem Kept.unique {members : List Member} {named named' : List (String × Node)}
    (h : Kept members named) (h' : Kept members named') : named = named' := by
  induction h generalizing named' with
  | nil =>
    cases h'
    rfl
  | @cons m n members named hm _ ih =>
    cases h' with
    | @cons _ n' _ named' hm' hrest =>
      have hkey := Except.ok.inj (hm.1.symm.trans hm'.1)
      rw [ih hrest, Prod.ext hkey (hm.2.symm.trans hm'.2)]

end ShowsNamed

/-- The row fills its slots from members that are like this, and from none in which a known key is
repeated. -/
structure Row.Tolerates {σ ρ : Type} (row : Row σ ρ) (fields : List (String × Schema))
    (held : List (String × Tree) → ρ → Prop) : Prop where
  unknown : ∀ key ∉ fields.map Prod.fst, ∀ node slots, row.put key node slots = none
  accepts : ∀ ⦃ms ts⦄, ShowsNamed ms ts → ∀ values, held ts values →
    row.Gathers (goodMembers ms) values
  once : ∀ ⦃ms ts⦄, ShowsNamed ms ts → ∀ values, row.Gathers (goodMembers ms) values →
    ∀ key ∈ fields.map Prod.fst, (ts.map Prod.fst).count key ≤ 1
  inside : ∀ ⦃ms ts⦄, ShowsNamed ms ts → ∀ values, row.Gathers (goodMembers ms) values →
    ∀ key schema t, (key, schema) ∈ fields → (key, t) ∈ ts → ¬Repeats schema t

namespace Row

variable {α σ ρ : Type} {row : Row σ ρ} {schema : Schema}
  {fields : List (String × Schema)} {form : Tree → α → Prop}
  {held : List (String × Tree) → ρ → Prop}

theorem Tolerates.nil : Row.nil.Tolerates [] fun _ _ ↦ True where
  unknown _ _ _ _ := rfl
  accepts _ _ hall _ _ := ⟨(), fill_nil hall.skip, rfl⟩
  once _ _ _ _ _ _ hkey := by cases hkey
  inside _ _ _ _ _ _ _ _ hkey := by cases hkey

theorem Tolerates.cons (hrow : row.Tolerates fields held) (field : Field α)
    (hcodec : field.codec.Tolerates schema form) (hkey : field.key ∉ fields.map Prod.fst) :
    (Row.cons field row).Tolerates ((field.key, schema) :: fields) fun ts values ↦
      Tree.Holds ts field.key form field.absent values.1 ∧ held ts values.2 where
  unknown key hother node slots := by
    rw [List.map_cons] at hother
    rw [put_cons_of_ne (List.ne_of_not_mem_cons hother),
      hrow.unknown key (List.not_mem_of_not_mem_cons hother)]
    rfl
  accepts := by
    rintro ms ts hall ⟨x, values⟩ ⟨hholds, hrest⟩
    refine (gathers_cons_iff (hrow.unknown _ hkey) hall.skip).mpr ⟨?_, hrow.accepts hall _ hrest⟩
    rcases hholds with ⟨habsent, hnone⟩ | ⟨t, honce, hform⟩
    · refine Or.inl ⟨habsent, fun m hm heq ↦ ?_⟩
      have hmem : m.1 ∈ ts.map Prod.fst := hall.keys_eq ▸ List.mem_map_of_mem hm
      obtain ⟨n, hn, hn'⟩ := List.mem_map.mp hmem
      exact hnone n hn (hn'.trans heq)
    · obtain ⟨node, hnode, hshows⟩ := hall.exists_once honce
      exact Or.inr ⟨node, hnode, hcodec.accepts hshows x hform⟩
  once := by
    rintro ms ts hall ⟨x, values⟩ hgathers key hmem
    obtain ⟨hfinds, hrest⟩ := (gathers_cons_iff (hrow.unknown _ hkey) hall.skip).mp hgathers
    rcases List.mem_cons.mp hmem with rfl | hmem
    · rw [← hall.keys_eq]
      change (ms.map Prod.fst).count field.key ≤ 1
      rcases hfinds with ⟨-, hnone⟩ | ⟨node, honce, -⟩
      · have hzero : (ms.map Prod.fst).count field.key = 0 := by
          rw [List.count_eq_zero, List.mem_map]
          rintro ⟨m, hm, heq⟩
          exact hnone m hm heq
        omega
      · exact honce.count_eq.le
    · exact hrow.once hall _ hrest key hmem
  inside := by
    rintro ms ts hall ⟨x, values⟩ hgathers key schema' t hmem ht hrepeats
    obtain ⟨hfinds, hrest⟩ := (gathers_cons_iff (hrow.unknown _ hkey) hall.skip).mp hgathers
    rcases List.mem_cons.mp hmem with heq | hmem
    · obtain ⟨rfl, rfl⟩ := Prod.mk.inj heq
      obtain ⟨node, hnode, hshows⟩ := hall.exists_mem ht
      rcases hfinds with ⟨-, hnone⟩ | ⟨node', honce, hread⟩
      · exact hnone _ hnode rfl
      · rw [← honce.eq_of_mem hnode] at hread
        exact hcodec.refuses hshows hrepeats x hread
    · exact hrow.inside hall _ hrest key schema' t hmem ht hrepeats

end Row

/-- **A record is read from an object by its keys**, and from none in which one of them is
repeated. -/
theorem Row.Tolerates.record {α σ ρ : Type} {row : Row σ ρ} {fields : List (String × Schema)}
    {held : List (String × Tree) → ρ → Prop} (hrow : row.Tolerates fields held) (make : ρ → α)
    (parts : α → ρ) :
    (Codec.record row make parts).Tolerates (.record fields) fun t x ↦
      ∃ values, t.IsObject (held · values) ∧ make values = x where
  accepts := by
    rintro node t hshows x ⟨values, ⟨members, named, rfl, hnamed, hheld⟩, rfl⟩
    cases hshows with
    | @object ms _ keys nodes =>
      obtain ⟨kept, hkept, hall⟩ := hnamed.exists_kept keys nodes
      refine map_eq_ok_iff.mpr ⟨values, ?_, rfl⟩
      rw [read_object_eq_ok_iff, gathers_iff]
      exact ⟨kept, hkept, hrow.accepts hall values hheld⟩
  refuses := by
    intro node t hshows hrepeats x hread
    have hgathered {members : List (List Char × Tree)} {named : List (String × Tree)}
        (hnamed : Tree.Named members named) (hshows : Shows node (.object members)) :
        ∃ ms values, ShowsNamed ms named ∧ row.Gathers (goodMembers ms) values := by
      cases hshows with
      | @object ms _ keys nodes =>
        obtain ⟨values, hvalues, -⟩ := map_eq_ok_iff.mp hread
        rw [read_object_eq_ok_iff, gathers_iff] at hvalues
        obtain ⟨kept, hkept, hgathers⟩ := hvalues
        obtain ⟨kept', hkept', hall⟩ := hnamed.exists_kept keys nodes
        obtain rfl := hkept.unique hkept'
        exact ⟨kept, values, hall, hgathers⟩
    cases hrepeats with
    | twice known names two =>
      obtain ⟨ms, values, hall, hgathers⟩ := hgathered names hshows
      exact absurd (hrow.once hall values hgathers _ known) (Nat.not_le.mpr two)
    | member known names mem inside =>
      obtain ⟨ms, values, hall, hgathers⟩ := hgathered names hshows
      exact hrow.inside hall values hgathers _ _ _ known mem inside

/-! ## Texts -/

namespace Codec.Tolerates

variable {α : Type} {codec : Codec α} {schema : Schema} {form : Tree → α → Prop} {s : List Char}
  {t : Tree}

/-- **Any text of a tree that has the form is read.** -/
theorem readGlyphs_eq (h : codec.Tolerates schema form) (hwrites : Writes s t) {x : α}
    (hform : form t x) : codec.readGlyphs (glyphs s) = .ok x := by
  obtain ⟨node, hshows, hdocument⟩ := hwrites.exists_read
  rw [readGlyphs, hdocument, readDocument]
  dsimp only
  rw [h.accepts hshows x hform]
  rfl

/-- **No text of a tree in which a known key is repeated is read.** -/
theorem readGlyphs_fails (h : codec.Tolerates schema form) (hwrites : Writes s t)
    (hrepeats : Repeats schema t) : ∃ trouble, codec.readGlyphs (glyphs s) = .error trouble := by
  obtain ⟨node, hshows, hdocument⟩ := hwrites.exists_read
  rw [readGlyphs, hdocument, readDocument]
  dsimp only
  cases hread : codec.read node with
  | error trouble => exact ⟨trouble, rfl⟩
  | ok x => exact absurd hread (h.refuses hshows hrepeats x)

end Codec.Tolerates

end MailRules.Json
