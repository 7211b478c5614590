import Mathlib
import MailRules.Mailbox.Message

/-!
# Which headers a record is made from

Four fields of a record are taken from headers, each from the first one that names it. The letters
of a name may be capitals of ASCII or small ones. What only looks like one of these letters is
another, and no header names two fields.

Every other header is idle, and the record stays as it is whatever is done to those. `Edit` says
what this comes to. A header may come in if it names no field, or one that a header before it names
already, and such a header may go. Two neighbours may change places unless they name the same field.
These changes lead from some headers to others just if the same ones come first in both
(`edited_iff`), so there is nothing else to be done to idle headers. To see it, all of them are
taken out on both sides. What remains are the first headers, each of them once, and as none of these
names the field of another they can be put in any order.
-/

namespace MailRules

/-- The header that a field is taken from. The identifier is taken from none. -/
def Field.heading? : Field → Option String
  | .id => none
  | .sender => some "From"
  | .recipient => some "To"
  | .subject => some "Subject"
  | .received => some "Date"

namespace Mailbox

/-! ## Names -/

/-- A capital letter of ASCII and the small letter that it is. -/
def IsCapitalOf (capital small : Char) : Prop :=
  'A' ≤ capital ∧ capital ≤ 'Z' ∧ small.toNat = capital.toNat + 32

/-- The same character, or the two cases of one ASCII letter. -/
def SameLetter (c d : Char) : Prop := c = d ∨ IsCapitalOf c d ∨ IsCapitalOf d c

/-- The text is the name, up to the case of ASCII letters. -/
def Spells (s name : String) : Prop := List.Forall₂ SameLetter s.toList name.toList

theorem capital_iff {c : Char} : 'A' ≤ c ∧ c ≤ 'Z' ↔ 65 ≤ c.toNat ∧ c.toNat ≤ 90 := by
  rw [Char.le_def, Char.le_def, UInt32.le_iff_toNat_le, UInt32.le_iff_toNat_le]
  exact Iff.rfl

theorem toNat_toLower (c : Char) :
    c.toLower.toNat = if 65 ≤ c.toNat ∧ c.toNat ≤ 90 then c.toNat + 32 else c.toNat := by
  rw [Char.toLower]
  split
  · rename_i hcapital
    have h := capital_iff.mp ⟨hcapital.1, hcapital.2⟩
    rw [if_pos h]
    refine (UInt32.toNat_add _ _).trans (Nat.mod_eq_of_lt ?_)
    exact lt_of_le_of_lt (Nat.add_le_add_right h.2 32) (by norm_num)
  · rename_i hcapital
    rw [if_neg (mt capital_iff.mpr hcapital)]

theorem toLower_eq_toLower_iff {c d : Char} : c.toLower = d.toLower ↔ SameLetter c d := by
  rw [SameLetter, IsCapitalOf, IsCapitalOf, ← and_assoc, ← and_assoc, capital_iff, capital_iff,
    ← Char.toNat_inj, ← Char.toNat_inj, toNat_toLower, toNat_toLower]
  split <;> split <;> omega

theorem sameName_eq_true_iff {s name : String} : sameName s name = true ↔ Spells s name := by
  rw [sameName, beq_iff_eq, Spells, ← List.forall₂_eq_eq_eq, List.forall₂_map_left_iff,
    List.forall₂_map_right_iff]
  simp only [toLower_eq_toLower_iff]

/-- The header has the name that the field is read from. -/
def Header.Names (h : Header) (field : Field) : Prop :=
  ∃ name, field.heading? = some name ∧ Spells h.name name

def Header.names (h : Header) (field : Field) : Bool := field.heading?.any (sameName h.name)

variable {h : Header} {hs hs' : List Header} {field : Field}

theorem Header.names_eq_true_iff : h.names field = true ↔ h.Names field := by
  rw [Header.names, Header.Names, Option.any_eq_true]
  simp only [sameName_eq_true_iff]

/-- Names of headers are told apart by their letters, in whatever case these are. -/
theorem heading?_injective {field field' : Field} {name name' : String}
    (hname : field.heading? = some name) (hname' : field'.heading? = some name')
    (h : name.toList.map Char.toLower = name'.toList.map Char.toLower) : field = field' := by
  have hdistinct : (field.heading?.map fun name ↦ name.toList.map Char.toLower) =
      (field'.heading?.map fun name ↦ name.toList.map Char.toLower) := by
    rw [hname, hname', Option.map_some, Option.map_some, h]
  revert hdistinct
  cases field <;> cases field' <;> decide +kernel

/-- No header names two fields. -/
theorem Header.Names.unique {field' : Field} (h₁ : h.Names field) (h₂ : h.Names field') :
    field = field' := by
  obtain ⟨name, hname, hspells⟩ := h₁
  obtain ⟨name', hname', hspells'⟩ := h₂
  refine heading?_injective hname hname' ?_
  rw [← sameName_eq_true_iff, sameName, beq_iff_eq] at hspells hspells'
  rw [← hspells, ← hspells']

/-! ## First headers -/

/-- This header is the first of all these that names the field. -/
def IsFirst (hs : List Header) (field : Field) (h : Header) : Prop :=
  ∃ before after, hs = before ++ h :: after ∧ (∀ b ∈ before, ¬b.Names field) ∧ h.Names field

theorem isFirst_iff : IsFirst hs field h ↔ hs.find? (·.names field) = some h := by
  rw [List.find?_eq_some_iff_append, IsFirst]
  simp only [← Header.names_eq_true_iff, Bool.not_eq_true, Bool.not_eq_eq_eq_not, Bool.not_true]
  tauto

/-- The same headers come first. -/
def SameFirst (hs hs' : List Header) : Prop := ∀ field h, IsFirst hs field h ↔ IsFirst hs' field h

theorem sameFirst_iff :
    SameFirst hs hs' ↔ ∀ field, hs.find? (·.names field) = hs'.find? (·.names field) := by
  simp only [SameFirst, isFirst_iff]
  exact forall_congr' fun field ↦ Option.ext_iff.symm

/-! ## Changes that make no difference -/

/-- No field is named by both. -/
def Header.Apart (a b : Header) : Prop := ∀ field, a.Names field → ¬b.Names field

theorem Header.Apart.symm {a b : Header} (h : a.Apart b) : b.Apart a :=
  fun field hb ha ↦ h field ha hb

/-- One header more, which names no field that none before it names, or two neighbours the other way
round that name no field in common. -/
inductive Edit : List Header → List Header → Prop
  | insert {before after : List Header} {h : Header}
      (idle : ∀ field, h.Names field → ∃ b ∈ before, b.Names field) :
      Edit (before ++ after) (before ++ h :: after)
  | swap {before after : List Header} {a b : Header} (apart : a.Apart b) :
      Edit (before ++ a :: b :: after) (before ++ b :: a :: after)

/-- Any number of such changes, made or undone. -/
def Edited : List Header → List Header → Prop := Relation.EqvGen Edit

/-- Such a change leaves every field its first header. -/
theorem Edit.find?_eq (h : Edit hs hs') (field : Field) :
    hs.find? (·.names field) = hs'.find? (·.names field) := by
  induction h with
  | @insert before after h idle =>
    rw [List.find?_append, List.find?_append, List.find?_cons]
    split
    · rename_i hnames
      obtain ⟨b, hb, hbnames⟩ := idle field (Header.names_eq_true_iff.mp hnames)
      have hsome : (before.find? (·.names field)).isSome := by
        rw [List.find?_isSome]
        exact ⟨b, hb, Header.names_eq_true_iff.mpr hbnames⟩
      rw [Option.or_of_isSome hsome, Option.or_of_isSome hsome]
    · rfl
  | @swap before after a b apart =>
    have hnames := apart field
    rw [← Header.names_eq_true_iff, ← Header.names_eq_true_iff] at hnames
    simp only [List.find?_append, List.find?_cons]
    cases ha : a.names field with
    | false => rfl
    | true => simp [hnames ha]

theorem Edit.append (h : Edit hs hs') (u t : List Header) :
    Edit (u ++ hs ++ t) (u ++ hs' ++ t) := by
  induction h with
  | @insert before after h idle =>
    have hidle (field : Field) (hn : h.Names field) : ∃ b ∈ u ++ before, b.Names field := by
      obtain ⟨b, hb, hbn⟩ := idle field hn
      exact ⟨b, List.mem_append_right u hb, hbn⟩
    simpa using @Edit.insert (u ++ before) (after ++ t) h hidle
  | @swap before after a b apart =>
    simpa using @Edit.swap (u ++ before) (after ++ t) a b apart

namespace Edited

theorem refl (hs : List Header) : Edited hs hs := Relation.EqvGen.refl hs

theorem symm (h : Edited hs hs') : Edited hs' hs := Relation.EqvGen.symm _ _ h

theorem trans {hs'' : List Header} (h : Edited hs hs') (h' : Edited hs' hs'') : Edited hs hs'' :=
  Relation.EqvGen.trans _ _ _ h h'

theorem append (h : Edited hs hs') (u t : List Header) : Edited (u ++ hs ++ t) (u ++ hs' ++ t) := by
  induction h with
  | rel hs hs' h => exact Relation.EqvGen.rel _ _ (h.append u t)
  | refl hs => exact refl _
  | symm hs hs' _ ih => exact ih.symm
  | trans hs hs' hs'' _ _ ih ih' => exact ih.trans ih'

theorem sameFirst (h : Edited hs hs') : SameFirst hs hs' := by
  rw [sameFirst_iff]
  intro field
  induction h with
  | rel hs hs' h => exact h.find?_eq field
  | refl hs => rfl
  | symm hs hs' _ ih => exact ih.symm
  | trans hs hs' hs'' _ _ ih ih' => exact ih.trans ih'

end Edited

/-! ## Headers without idle ones -/

/-- Every header names a field, and no two of them the same. -/
structure Bare (hs : List Header) : Prop where
  names : ∀ h ∈ hs, ∃ field, h.Names field
  apart : hs.Pairwise Header.Apart

theorem Bare.concat (hbare : Bare hs) (hn : h.Names field) (hapart : ∀ b ∈ hs, b.Apart h) :
    Bare (hs ++ [h]) where
  names := by
    intro b hb
    rcases List.mem_append.mp hb with hb | hb
    · exact hbare.names b hb
    · exact ⟨field, List.mem_singleton.mp hb ▸ hn⟩
  apart := by
    refine List.pairwise_append.mpr ⟨hbare.apart, List.pairwise_singleton _ _, ?_⟩
    intro b hb c hc
    rw [List.mem_singleton.mp hc]
    exact hapart b hb

/-- Idle headers can be taken out. -/
theorem exists_bare (hs : List Header) : ∃ bare, Bare bare ∧ Edited hs bare := by
  -- from the front, so that what comes before a header is bare when its turn comes
  induction hs using List.reverseRecOn with
  | nil => exact ⟨[], ⟨by simp, .nil⟩, .refl []⟩
  | append_singleton hs h ih =>
    obtain ⟨bare, hbare, hedited⟩ := ih
    have happend : Edited (hs ++ [h]) (bare ++ [h]) := hedited.append [] [h]
    by_cases hnew : ∃ field, h.Names field ∧ ∀ b ∈ bare, ¬b.Names field
    · obtain ⟨field, hn, hnone⟩ := hnew
      refine ⟨bare ++ [h], hbare.concat hn fun b hb field' hb' hn' ↦ ?_, happend⟩
      rw [hn'.unique hn] at hb'
      exact hnone b hb hb'
    · have hidle (field : Field) (hn : h.Names field) : ∃ b ∈ bare, b.Names field := by
        by_contra! hnone
        exact hnew ⟨field, hn, hnone⟩
      have hedit : Edit bare (bare ++ [h]) := by simpa using @Edit.insert bare [] h hidle
      exact ⟨bare, hbare, happend.trans (Relation.EqvGen.rel _ _ hedit).symm⟩

/-- Headers that name different fields can be put in any order. -/
theorem edited_of_perm (hapart : hs.Pairwise Header.Apart) (hperm : hs.Perm hs') :
    Edited hs hs' := by
  induction hperm with
  | nil => exact Edited.refl []
  | @cons h hs hs' _ ih => simpa using (ih hapart.of_cons).append [h] []
  | @swap a b hs =>
    have hba : b.Apart a := (List.pairwise_cons.mp hapart).1 a List.mem_cons_self
    exact Relation.EqvGen.rel _ _ (@Edit.swap [] hs b a hba)
  | @trans hs hs' hs'' hperm _ ih ih' =>
    exact (ih hapart).trans (ih' (hperm.pairwise hapart Header.Apart.symm))

namespace Bare

/-- Each of these headers is the first that names its field. -/
theorem mem_iff (hbare : Bare hs) : h ∈ hs ↔ ∃ field, IsFirst hs field h := by
  constructor
  · intro hmem
    obtain ⟨field, hn⟩ := hbare.names h hmem
    obtain ⟨before, after, rfl⟩ := List.append_of_mem hmem
    have happart := (List.pairwise_append.mp hbare.apart).2.2
    exact ⟨field, before, after, rfl,
      fun b hb hb' ↦ happart b hb h List.mem_cons_self field hb' hn, hn⟩
  · rintro ⟨field, before, after, rfl, -⟩
    exact List.mem_append_right before List.mem_cons_self

theorem nodup (hbare : Bare hs) : hs.Nodup := by
  refine hbare.apart.imp_of_mem fun {a b} ha _ happart heq ↦ ?_
  obtain ⟨field, hn⟩ := hbare.names a ha
  exact happart field hn (heq ▸ hn)

theorem edited (hbare : Bare hs) (hbare' : Bare hs') (hfirst : SameFirst hs hs') :
    Edited hs hs' := by
  refine edited_of_perm hbare.apart ((List.perm_ext_iff_of_nodup hbare.nodup hbare'.nodup).mpr ?_)
  intro h
  rw [hbare.mem_iff, hbare'.mem_iff]
  exact exists_congr fun field ↦ hfirst field h

end Bare

/-- **Edited headers are those with the same first ones.** -/
theorem edited_iff : Edited hs hs' ↔ SameFirst hs hs' := by
  constructor
  · exact Edited.sameFirst
  · intro hfirst
    obtain ⟨bare, hbare, hedited⟩ := exists_bare hs
    obtain ⟨bare', hbare', hedited'⟩ := exists_bare hs'
    have hsame : SameFirst bare bare' := by
      intro field h
      calc IsFirst bare field h
          ↔ IsFirst hs field h := (hedited.sameFirst field h).symm
        _ ↔ IsFirst hs' field h := hfirst field h
        _ ↔ IsFirst bare' field h := hedited'.sameFirst field h
    exact (hedited.trans (hbare.edited hbare' hsame)).trans hedited'.symm

/-! ## Records -/

/-- The headers of the payload, and none without one. -/
def Message.headers (m : Message) : List Header := m.payload.elim [] Part.headers

/-- What the first of these headers that names the field says. -/
def IsFirstValue (hs : List Header) (field : Field) (v : String) : Prop :=
  ∃ h, IsFirst hs field h ∧ h.value = v

theorem isFirstValue_iff {v : String} :
    IsFirstValue hs field v ↔ (hs.find? (·.names field)).map Header.value = some v := by
  rw [IsFirstValue, Option.map_eq_some_iff]
  simp only [isFirst_iff]

namespace Message

variable {m m' : Message}

theorem header_eq (m : Message) (name : String) :
    m.header name = ((m.headers.find? fun h ↦ sameName h.name name).map Header.value).getD "" := by
  rw [header, headers]
  cases m.payload with
  | none => rfl
  | some p =>
    rw [Option.bind_some, Option.elim_some]
    cases p.headers.find? fun h ↦ sameName h.name name <;> rfl

theorem get_record (m : Message) (hfield : field ≠ .id) :
    m.record.get field = ((m.headers.find? (·.names field)).map Header.value).getD "" := by
  have hread (name : String) (h : field.heading? = some name) :
      m.header name = ((m.headers.find? (·.names field)).map Header.value).getD "" := by
    rw [header_eq]
    simp only [Header.names, h, Option.any_some]
  cases field with
  | id => exact absurd rfl hfield
  | sender => exact hread "From" rfl
  | recipient => exact hread "To" rfl
  | subject => exact hread "Subject" rfl
  | received => exact hread "Date" rfl

theorem record_eq_of_isFirstValue (hid : m'.id = m.id)
    (h : ∀ field v, IsFirstValue m'.headers field v ↔ IsFirstValue m.headers field v) :
    m'.record = m.record := by
  refine Record.ext_get fun field ↦ ?_
  by_cases hfield : field = .id
  · rw [hfield]
    exact hid
  · rw [get_record m' hfield, get_record m hfield]
    refine congrArg (Option.getD · "") (Option.ext fun v ↦ ?_)
    rw [← isFirstValue_iff, ← isFirstValue_iff]
    exact h field v

theorem record_eq_of_edited (hid : m'.id = m.id) (h : Edited m.headers m'.headers) :
    m'.record = m.record := by
  refine record_eq_of_isFirstValue hid fun field v ↦ exists_congr fun first ↦ ?_
  rw [h.sameFirst field first]

/-- **A record is made from first headers.** It has the identifier of the message, and each of its
other fields is the value of the first header that names it, as it stands, or empty if there is
none. So two messages with one identifier make the same record if the first headers say the same,
whatever else is in them, and in particular if the headers of one can be edited into those of the
other, which is so exactly if the same headers come first. -/
theorem record_of_first_headers (m : Message) :
    m.record.id = m.id ∧
    (∀ field, field ≠ .id →
      (∃ h, IsFirst m.headers field h ∧ m.record.get field = h.value) ∨
        (∀ h ∈ m.headers, ¬h.Names field) ∧ m.record.get field = "") ∧
    ∀ m' : Message,
      (m'.id = m.id →
        (∀ field v, IsFirstValue m'.headers field v ↔ IsFirstValue m.headers field v) →
        m'.record = m.record) ∧
      (m'.id = m.id → Edited m.headers m'.headers → m'.record = m.record) ∧
      (Edited m.headers m'.headers ↔ SameFirst m.headers m'.headers) := by
  refine ⟨rfl, fun field hfield ↦ ?_, fun m' ↦
    ⟨record_eq_of_isFirstValue, record_eq_of_edited, edited_iff⟩⟩
  rw [get_record m hfield]
  cases hfind : m.headers.find? (·.names field) with
  | some h => exact Or.inl ⟨h, isFirst_iff.mpr hfind, rfl⟩
  | none =>
    refine Or.inr ⟨fun h hmem hnames ↦ ?_, rfl⟩
    exact List.find?_eq_none.mp hfind h hmem (Header.names_eq_true_iff.mpr hnames)

/-- A subject spelled with a long s comes in before the others, which change places, and a second
subject after them. -/
theorem record_of_first_headers_of_long_s :
    let m : Message := ⟨"1", none, [], none, none, some ⟨none, [⟨"FROM", "a"⟩, ⟨"Subject", "b"⟩]⟩⟩
    let m' : Message := ⟨"1", none, [], none, none,
      some ⟨none, [⟨"ſubject", "c"⟩, ⟨"Subject", "b"⟩, ⟨"FROM", "a"⟩, ⟨"subject", "d"⟩]⟩⟩
    m.record = ⟨"1", "a", "", "b", ""⟩ ∧ Edited m.headers m'.headers ∧ m'.record = m.record := by
  intro m m'
  have hrecord : m.record = ⟨"1", "a", "", "b", ""⟩ := by decide +kernel
  have hedited : Edited m.headers m'.headers := by
    rw [edited_iff, sameFirst_iff]
    intro field
    cases field <;> decide +kernel
  exact ⟨hrecord, hedited, ((record_of_first_headers m).2.2 m').2.1 rfl hedited⟩

end Message

end Mailbox

end MailRules
