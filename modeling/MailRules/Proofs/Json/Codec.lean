import Mathlib
import MailRules.Json.Codec
import MailRules.Proofs.Json.Layout

/-!
# What is written is read back

A codec restores a value if it reads it from the tree of what it writes. For texts that is a fact
of their tokens, and every way of making a codec of others hands it on. A record is restored if its
fields are and no two of them have one key: the walk over the members fills the slots one after the
other, and the members of later fields pass by the slot of an earlier one
(`Row.fill_cons_of_ne`). A field that is not written is restored if that is what its absence means.

What is restored from its tree is restored from its text, whichever layout it has
(`Codec.Restores.roundTrips`).
-/

namespace MailRules.Json

open MailRules.Text

/-! ## Outcomes -/

section Outcomes

variable {α β : Type} {a : Except Trouble α} {y : β}

theorem bind_eq_ok_iff {f : α → Except Trouble β} :
    a >>= f = .ok y ↔ ∃ x, a = .ok x ∧ f x = .ok y := by
  cases a <;> simp [bind, Except.bind]

theorem map_eq_ok_iff {f : α → β} : f <$> a = .ok y ↔ ∃ x, a = .ok x ∧ f x = y := by
  cases a <;> simp [Functor.map, Except.map]

theorem pure_eq_ok_iff {x y : β} : (pure x : Except Trouble β) = .ok y ↔ x = y := by
  simp [pure, Except.pure]

end Outcomes

/-! ## Codecs -/

/-- The codec reads the value back from the tree of what it writes. -/
def Codec.Restores {α : Type} (codec : Codec α) (x : α) : Prop :=
  codec.read (codec.write x).node = .ok x

namespace Codec

variable {α β : Type} {codec : Codec α}

theorem restores_text (s : String) : text.Restores s := rfl

theorem Restores.via {decode : α → Option β} {encode : β → α} {x : β}
    (h : codec.Restores (encode x)) (hdecode : decode (encode x) = some x) :
    (codec.via decode encode).Restores x := by
  have hread : codec.read (codec.write (encode x)).node = .ok (encode x) := h
  simp [Restores, Codec.via, hread, hdecode, bind, Except.bind, pure, Except.pure]

theorem restores_natural {n : ℕ} (h : n < Number.limit) : natural.Restores n := by
  rw [Restores, natural, Value.node]
  dsimp only
  rw [kept_writtenNumber h]
  rfl

theorem restores_name {named : String → Option α} {written : α → String} {x : α}
    (h : named (written x) = some x) : (name named written).Restores x := by
  simp [Restores, name, Value.node, Token.good, h, bind, Except.bind, pure, Except.pure]

/-- Nothing but the absent value is written as a null. -/
theorem restores_option {o : Option α} (h : ∀ x ∈ o, codec.Restores x ∧ codec.write x ≠ .null) :
    codec.option.Restores o := by
  cases o with
  | none => rfl
  | some x =>
    obtain ⟨hread, hnull⟩ := h x rfl
    rw [Restores] at hread
    simp only [Restores, option]
    cases hwrite : codec.write x with
    | null => exact absurd hwrite hnull
    | bool b =>
      rw [hwrite] at hread
      cases b <;> simp_all [Value.node, Token.good]
    | number n | text s | array vs | object ms =>
      rw [hwrite] at hread
      simp_all [Value.node]

theorem restores_list {xs : List α} (h : ∀ x ∈ xs, codec.Restores x) : codec.list.Restores xs := by
  have hitems : readItems codec (nodesOf (xs.map codec.write)) = .ok xs := by
    induction xs with
    | nil => rfl
    | cons x xs ih =>
      obtain ⟨hx, hxs⟩ := List.forall_mem_cons.mp h
      rw [Restores] at hx
      simp [nodesOf, readItems, hx, ih hxs, bind, Except.bind, pure, Except.pure]
  rw [Restores, list, Value.node]
  dsimp only
  rw [hitems]
  rfl

end Codec

/-! ## Records -/

/-- The field has its value back, from what is written or because nothing is. -/
def Field.Restores {α : Type} (field : Field α) (x : α) : Prop :=
  if field.hidden x then field.absent = some x else field.codec.Restores x

theorem Field.restores_required {α : Type} {key : String} {codec : Codec α} {x : α}
    (h : codec.Restores x) : (Field.required key codec).Restores x := h

theorem Field.restores_optional {α : Type} {key : String} {codec : Codec α} {o : Option α}
    (h : ∀ x ∈ o, codec.Restores x ∧ codec.write x ≠ .null) :
    (Field.optional key codec).Restores o := Codec.restores_option h

theorem Field.restores_defaulted {α : Type} {key : String} {codec : Codec α} {x d : α}
    (h : codec.Restores x) : (Field.defaulted key codec d).Restores x := h

namespace Row

variable {α σ ρ : Type} {field : Field α} {row : Row σ ρ}

/-- The walk over what is written of the values ends with all of them. -/
def Restores (row : Row σ ρ) (values : ρ) : Prop :=
  ∃ slots, row.fill row.empty (membersOf (row.write values)) = .ok slots ∧
    row.finish slots = .ok values

theorem restores_nil : nil.Restores () := ⟨(), rfl, rfl⟩

theorem put_cons_of_ne {key : String} (h : key ≠ field.key) (node : Node) (x : Option α)
    (slots : σ) : (cons field row).put key node (x, slots) =
      (row.put key node slots).map fun r ↦ (fun rest ↦ (x, rest)) <$> r :=
  if_neg h

theorem put_cons_self (node : Node) (slots : σ) :
    (cons field row).put field.key node (none, slots) =
      some ((fun x ↦ (some x, slots)) <$> field.codec.read node) :=
  if_pos rfl

theorem fill_good (key : String) (node : Node) (slots : σ) (members : List Member) :
    row.fill slots ((.good key, node) :: members) =
      match row.put key node slots with
      | some filled => filled.bind fun slots ↦ row.fill slots members
      | none => node.skip.bind fun _ ↦ row.fill slots members := rfl

/-- Members of other keys leave the slot of a field alone. -/
theorem fill_cons_of_ne {ms : List (String × Value)} (h : ∀ m ∈ ms, m.1 ≠ field.key)
    (x : Option α) (slots : σ) :
    (cons field row).fill (x, slots) (membersOf ms) =
      (fun rest ↦ (x, rest)) <$> row.fill slots (membersOf ms) := by
  induction ms generalizing slots with
  | nil => rfl
  | cons m ms ih =>
    obtain ⟨key, v⟩ := m
    obtain ⟨hkey, hms⟩ := List.forall_mem_cons.mp h
    rw [membersOf, fill_good, fill_good, put_cons_of_ne hkey]
    cases row.put key v.node slots with
    | none =>
      cases v.node.skip with
      | error e => rfl
      | ok u => exact ih hms slots
    | some filled =>
      cases filled with
      | error e => rfl
      | ok slots => exact ih hms slots

theorem restores_cons {x : α} {values : ρ} (hfield : field.Restores x)
    (hkey : ∀ m ∈ row.write values, m.1 ≠ field.key) (hrow : row.Restores values) :
    (cons field row).Restores (x, values) := by
  obtain ⟨slots, hfill, hfinish⟩ := hrow
  by_cases hhidden : field.hidden x = true
  · have habsent : field.absent = some x := by simpa [Field.Restores, hhidden] using hfield
    have hwrite : (cons field row).write (x, values) = row.write values := if_pos hhidden
    refine ⟨(none, slots), ?_, ?_⟩
    · rw [hwrite]
      refine (fill_cons_of_ne hkey none row.empty).trans ?_
      rw [hfill]
      rfl
    · simp [cons, orMismatch, habsent, hfinish, bind, Except.bind, pure, Except.pure]
  · have hread : field.codec.read (field.codec.write x).node = .ok x := by
      simpa [Field.Restores, hhidden, Codec.Restores] using hfield
    have hput : (cons field row).put field.key (field.codec.write x).node (cons field row).empty =
        some (.ok (some x, row.empty)) := by
      rw [show (cons field row).empty = (none, row.empty) from rfl, put_cons_self, hread]
      rfl
    have hwrite : (cons field row).write (x, values) =
        (field.key, field.codec.write x) :: row.write values := if_neg hhidden
    refine ⟨(some x, slots), ?_, ?_⟩
    · rw [hwrite, membersOf, fill_good, hput]
      refine (fill_cons_of_ne hkey (some x) row.empty).trans ?_
      rw [hfill]
      rfl
    · simp [cons, orMismatch, hfinish, bind, Except.bind, pure, Except.pure]

/-- The row has the values back, and writes them under no other keys than these. -/
structure RestoresUnder (row : Row σ ρ) (keys : List String) (values : ρ) : Prop where
  restores : row.Restores values
  mem_keys : ∀ m ∈ row.write values, m.1 ∈ keys

theorem RestoresUnder.nil : Row.nil.RestoresUnder [] () := ⟨restores_nil, by simp [Row.nil]⟩

theorem RestoresUnder.cons {keys : List String} {x : α} {values : ρ} (hfield : field.Restores x)
    (hkey : field.key ∉ keys) (hrow : row.RestoresUnder keys values) :
    (Row.cons field row).RestoresUnder (field.key :: keys) (x, values) where
  restores := restores_cons hfield (fun m hm h ↦ hkey (h ▸ hrow.mem_keys m hm)) hrow.restores
  mem_keys m hm := by
    rw [Row.cons] at hm
    dsimp only at hm
    split at hm
    · exact List.mem_cons_of_mem _ (hrow.mem_keys m hm)
    · rcases List.mem_cons.mp hm with rfl | hm
      · exact List.mem_cons_self
      · exact List.mem_cons_of_mem _ (hrow.mem_keys m hm)

end Row

theorem Codec.restores_record {α σ ρ : Type} {row : Row σ ρ} {make : ρ → α} {fields : α → ρ}
    {x : α} (h : row.Restores (fields x)) (hmake : make (fields x) = x) :
    (Codec.record row make fields).Restores x := by
  obtain ⟨slots, hfill, hfinish⟩ := h
  have hread : row.read (.object (membersOf (row.write (fields x))) .closed) = .ok (fields x) := by
    rw [Row.read, hfill]
    exact hfinish
  have hnode : ((record row make fields).write x).node =
      .object (membersOf (row.write (fields x))) .closed := by
    rw [record, Value.node]
  rw [Restores, hnode]
  change make <$> row.read (.object (membersOf (row.write (fields x))) .closed) = _
  rw [hread]
  exact congrArg Except.ok hmake

/-- A record is restored if its fields are and no two of them have one key. -/
theorem Row.RestoresUnder.record {α σ ρ : Type} {row : Row σ ρ} {keys : List String}
    {make : ρ → α} {fields : α → ρ} {x : α} (h : row.RestoresUnder keys (fields x))
    (hmake : make (fields x) = x) : (Codec.record row make fields).Restores x :=
  Codec.restores_record h.restores hmake

/-! ## What is read -/

/-- Whatever the codec reads is so. -/
def Codec.Yields {α : Type} (codec : Codec α) (p : α → Prop) : Prop :=
  ∀ node x, codec.read node = .ok x → p x

theorem Codec.yields_true {α : Type} (codec : Codec α) : codec.Yields fun _ ↦ True :=
  fun _ _ _ ↦ trivial

namespace Row

variable {α σ ρ : Type} {row : Row σ ρ} {held : σ → Prop} {p : ρ → Prop}

/-- What the row holds on its way is so, and so is what it ends with. -/
structure Yields (row : Row σ ρ) (held : σ → Prop) (p : ρ → Prop) : Prop where
  empty : held row.empty
  put : ∀ key node slots slots', held slots → row.put key node slots = some (.ok slots') →
    held slots'
  finish : ∀ slots values, held slots → row.finish slots = .ok values → p values
  items : ∀ nodes ending values, row.items nodes ending = .ok values → p values

theorem Yields.nil : Row.nil.Yields (fun _ ↦ True) fun _ ↦ True where
  empty := trivial
  put _ _ _ _ _ _ := trivial
  finish _ _ _ _ := trivial
  items _ _ _ _ := trivial

theorem Yields.cons (key : String) {codec : Codec α} {q : α → Prop} (hrow : row.Yields held p)
    (hcodec : codec.Yields q) :
    (Row.cons (.required key codec) row).Yields (fun slots ↦ (∀ x ∈ slots.1, q x) ∧ held slots.2)
      fun values ↦ q values.1 ∧ p values.2 where
  empty := ⟨by simp [Row.cons], hrow.empty⟩
  put := by
    rintro key' node ⟨slot, slots⟩ ⟨slot', slots'⟩ ⟨hslot, hslots⟩ h
    by_cases hkey : key' = key
    · subst hkey
      cases slot with
      | some x => simp [Row.cons, Field.required] at h
      | none =>
        have hself : (Row.cons (.required key' codec) row).put key' node (none, slots) =
            some ((fun x ↦ (some x, slots)) <$> codec.read node) := put_cons_self node slots
        have hput := Option.some.inj (hself.symm.trans h)
        obtain ⟨x, hread, heq⟩ := map_eq_ok_iff.mp hput
        obtain ⟨rfl, rfl⟩ := Prod.mk.inj heq
        exact ⟨by simpa using hcodec node x hread, hslots⟩
    · rw [put_cons_of_ne hkey] at h
      obtain ⟨filled, hput, hfilled⟩ := Option.map_eq_some_iff.mp h
      obtain ⟨rest, rfl, heq⟩ := map_eq_ok_iff.mp hfilled
      obtain ⟨rfl, rfl⟩ := Prod.mk.inj heq
      exact ⟨hslot, hrow.put key' node slots rest hslots hput⟩
  finish := by
    rintro ⟨slot, slots⟩ ⟨x, values⟩ ⟨hslot, hslots⟩ h
    obtain ⟨y, hy, hrest⟩ := bind_eq_ok_iff.mp h
    obtain ⟨rest, hfinish, heq⟩ := bind_eq_ok_iff.mp hrest
    obtain ⟨rfl, rfl⟩ := Prod.mk.inj (pure_eq_ok_iff.mp heq)
    cases slot with
    | none => cases hy
    | some z =>
      obtain rfl := Except.ok.inj hy
      exact ⟨hslot z rfl, hrow.finish slots rest hslots hfinish⟩
  items := by
    rintro nodes ending ⟨x, values⟩ h
    cases nodes with
    | nil =>
      obtain ⟨_, -, hbeyond⟩ := bind_eq_ok_iff.mp h
      obtain ⟨_, hnone, -⟩ := bind_eq_ok_iff.mp hbeyond
      cases hnone
    | cons node nodes =>
      obtain ⟨y, hread, hrest⟩ := bind_eq_ok_iff.mp h
      obtain ⟨rest, hitems, heq⟩ := bind_eq_ok_iff.mp hrest
      obtain ⟨rfl, rfl⟩ := Prod.mk.inj (pure_eq_ok_iff.mp heq)
      exact ⟨hcodec node y hread, hrow.items nodes ending rest hitems⟩

theorem Yields.fill {members : List Member} {slots slots' : σ} (hrow : row.Yields held p)
    (hslots : held slots) (h : row.fill slots members = .ok slots') : held slots' := by
  induction members generalizing slots with
  | nil =>
    obtain rfl := Except.ok.inj h
    exact hslots
  | cons m members ih =>
    obtain ⟨token, node⟩ := m
    obtain ⟨key, -, hstep⟩ := bind_eq_ok_iff.mp h
    split at hstep
    · rename_i filled hput
      obtain ⟨next, rfl, hrest⟩ := bind_eq_ok_iff.mp hstep
      exact ih (hrow.put key node slots next hslots hput) hrest
    · obtain ⟨_, -, hrest⟩ := bind_eq_ok_iff.mp hstep
      exact ih hslots hrest

end Row

/-- What a record is read as is made of what its fields are read as. -/
theorem Row.Yields.record {α σ ρ : Type} {row : Row σ ρ} {held : σ → Prop} {p : ρ → Prop}
    (hrow : row.Yields held p) (make : ρ → α) (fields : α → ρ) :
    (Codec.record row make fields).Yields fun x ↦ ∃ values, p values ∧ make values = x := by
  intro node x h
  obtain ⟨values, hread, hmake⟩ := map_eq_ok_iff.mp h
  refine ⟨values, ?_, hmake⟩
  cases node with
  | object members ending =>
    obtain ⟨slots, hfill, hrest⟩ := bind_eq_ok_iff.mp hread
    obtain ⟨-, -, hfinish⟩ := bind_eq_ok_iff.mp hrest
    exact hrow.finish _ _ (hrow.fill hrow.empty hfill) hfinish
  | array items ending => exact hrow.items _ _ _ hread
  | missing | word | number | text => cases hread

/-! ## Texts -/

/-- The codec reads the value back from either layout of what it writes. -/
structure Codec.RoundTrips {α : Type} (codec : Codec α) (x : α) : Prop where
  compact : codec.readText (codec.write x).compactText = .ok x
  indented : codec.readText (codec.write x).indentedText = .ok x

theorem Codec.Restores.readText_compactText {α : Type} {codec : Codec α} {x : α}
    (h : codec.Restores x) : codec.readText (codec.write x).compactText = .ok x := by
  have hread : codec.read (codec.write x).node = .ok x := h
  rw [Codec.readText, readGlyphs, Value.read_compactText, readDocument, hread]
  rfl

theorem Codec.Restores.readText {α : Type} {codec : Codec α} {x : α} (h : codec.Restores x) :
    codec.readText (codec.write x).indentedText = .ok x := by
  have hread : codec.read (codec.write x).node = .ok x := h
  rw [Codec.readText, readGlyphs, Value.read_indentedText, readDocument, hread]
  rfl

/-- **What is restored from its tree is restored from its text.** -/
theorem Codec.Restores.roundTrips {α : Type} {codec : Codec α} {x : α} (h : codec.Restores x) :
    codec.RoundTrips x :=
  ⟨h.readText_compactText, h.readText⟩

end MailRules.Json
