import Mathlib
import MailRules.Proofs.Json.Codec
import MailRules.Proofs.Json.Reading

/-!
# Typed readers and trees

What a typed reader takes can be said of trees, with no word of nodes, tokens or slots: which trees
are a text, a name, a list or a record, and of what value. `Codec.Takes` says of a codec that on the
nodes of a tree it succeeds with exactly these values.

Records are the work. The walk over the members of an object fills one slot after the other, in the
order of the text; the form of a record speaks of the fields in the order of the row, each under a
key that one member has and no other. The slot of one field and those of the rest do not see each
other's members (`Row.fill_cons_iff`), so that a row may be taken apart field by field with the
members left as they are.
-/

namespace MailRules.Json

open MailRules.Text

/-! ## Forms of trees -/

/-- One member has the key and the value, and no other member has the key. -/
def Once {α : Type} (members : List (String × α)) (key : String) (x : α) : Prop :=
  ∃ before after, members = before ++ (key, x) :: after ∧ ∀ m ∈ before ++ after, m.1 ≠ key

namespace Tree

def IsText (t : Tree) (s : String) : Prop := ∃ k, t = .text k ∧ Means k s

/-- One of the names, as a text or as the only key of an object with a null under it. -/
def IsName (names : List String) (t : Tree) : Prop :=
  ∃ s ∈ names, t.IsText s ∨ ∃ k, t = .object [(k, .word .null)] ∧ Means k s

/-- An array of these values in their order. -/
def IsList {α : Type} (form : Tree → α → Prop) (t : Tree) (xs : List α) : Prop :=
  ∃ ts, t = .array ts ∧ List.Forall₂ form ts xs

/-- The members with what their keys mean. -/
def Named (members : List (List Char × Tree)) (named : List (String × Tree)) : Prop :=
  List.Forall₂ (fun m n ↦ Means m.1 n.1 ∧ m.2 = n.2) members named

/-- A record with these values under these keys: the bare list of them, or an object that has each
key once, in any order and among any others. -/
def IsRecord (keys : List String) (t : Tree) (values : List Tree) : Prop :=
  (t = .array values ∧ values.length = keys.length) ∨
    ∃ members named, t = .object members ∧ Named members named ∧
      List.Forall₂ (Once named) keys values

end Tree

/-- On the nodes of a tree the codec reads exactly the values that the tree has this form of. -/
def Codec.Takes {α : Type} (codec : Codec α) (form : Tree → α → Prop) : Prop :=
  ∀ ⦃node t⦄, Shows node t → ∀ x, codec.read node = .ok x ↔ form t x

/-! ## Texts, names and lists -/

namespace Codec

variable {α : Type} {codec : Codec α} {form : Tree → α → Prop}

theorem takes_text : text.Takes Tree.IsText := by
  intro node t h s
  cases h with
  | text same => simp [text, Tree.IsText, same.kept_iff]
  | word | number | array | object => simp [text, Tree.IsText]

theorem takes_name {named : String → Option α} {written : α → String} {names : α → List String}
    (hnames : ∀ s x, named s = some x ↔ s ∈ names x) :
    (name named written).Takes fun t x ↦ t.IsName (names x) := by
  intro node t h x
  -- the name is the same in both notations
  have hfind {token : Token String} {k : List Char} (same : ShowsText token k) :
      (name named written).read (.text token) = .ok x ↔ ∃ s ∈ names x, Means k s := by
    refine bind_eq_ok_iff.trans (exists_congr fun s ↦ ?_)
    rw [same.kept_iff, and_comm, ← hnames]
    cases named s <;> simp [pure, Except.pure]
  cases h with
  | text same =>
    refine (hfind same).trans ?_
    simp [Tree.IsName, Tree.IsText]
  | word | number | array =>
    simp [name, Tree.IsName, Tree.IsText]
  | @object ms ts keys values =>
    cases ms with
    | nil =>
      obtain rfl : ts = [] := by simpa using keys
      simp [name, Tree.IsName, Tree.IsText]
    | cons m ms =>
      obtain ⟨token, node⟩ := m
      obtain ⟨⟨k, t⟩, ts, rfl⟩ : ∃ m ms, ts = m :: ms := by
        cases ts with
        | nil => cases keys
        | cons m ms => exact ⟨m, ms, rfl⟩
      obtain ⟨same, -⟩ := List.forall₂_cons.mp keys
      obtain ⟨hshows, hrest⟩ := List.forall₂_cons.mp values
      have hlength : ms.length = ts.length := by simpa using hrest.length_eq
      have hread : (name named written).read (.object ((token, node) :: ms) .closed) = .ok x ↔
          (∃ s ∈ names x, Means k s) ∧ t = .word .null ∧ ts = [] := by
        rw [← hfind same]
        refine (bind_eq_ok_iff (a := (name named written).read (.text token))).trans ?_
        -- the value decides first, and then whether anything follows
        cases hshows with
        | word w =>
          cases ms with
          | nil =>
            obtain rfl : ts = [] := List.length_eq_zero_iff.mp hlength.symm
            cases w <;> simp [Token.good, bind, Except.bind, pure_eq_ok_iff]
          | cons m ms =>
            have hne : ts ≠ [] := by
              rintro rfl
              cases hlength
            cases w <;> simp [Token.good, hne, bind, Except.bind]
        | number | text | array | object => simp [bind, Except.bind]
      rw [hread]
      constructor
      · rintro ⟨⟨s, hs, hk⟩, rfl, rfl⟩
        exact ⟨s, hs, Or.inr ⟨k, rfl, hk⟩⟩
      · rintro ⟨s, hs, ⟨k', h, -⟩ | ⟨k', h, hk⟩⟩
        · cases h
        · cases h
          exact ⟨⟨s, hs, hk⟩, rfl, rfl⟩

theorem readItems_eq_ok_iff (h : codec.Takes form) {nodes : List Node} {ts : List Tree}
    (hall : List.Forall₂ Shows nodes ts) (xs : List α) :
    readItems codec nodes = .ok xs ↔ List.Forall₂ form ts xs := by
  induction hall generalizing xs with
  | nil => simp [readItems, eq_comm]
  | @cons node t nodes ts hnode hall ih =>
    simp only [readItems, bind_eq_ok_iff, pure_eq_ok_iff, h hnode, ih, List.forall₂_cons_left_iff]
    simp [eq_comm]

theorem takes_list (h : codec.Takes form) : codec.list.Takes (Tree.IsList form) := by
  intro node t hshows xs
  cases hshows with
  | array items =>
    have hread := readItems_eq_ok_iff h items xs
    simpa [list, Tree.IsList, Ending.check, bind_eq_ok_iff, pure_eq_ok_iff] using hread
  | word | number | text | object => simp [list, Tree.IsList]

end Codec

/-! ## Members one by one -/

section Once

variable {α : Type} {members : List (String × α)} {key key' : String} {x x' : α}

theorem once_nil : ¬Once [] key x := by simp [Once]

theorem once_cons_self :
    Once ((key, x') :: members) key x ↔ x' = x ∧ ∀ m ∈ members, m.1 ≠ key := by
  constructor
  · rintro ⟨before, after, h, hother⟩
    cases before with
    | nil =>
      obtain ⟨hx, rfl⟩ := List.cons.inj h
      exact ⟨(Prod.mk.inj hx).2, hother⟩
    | cons m before =>
      obtain ⟨rfl, -⟩ := List.cons.inj h
      exact absurd rfl (hother _ List.mem_cons_self)
  · rintro ⟨rfl, hother⟩
    exact ⟨[], members, rfl, hother⟩

theorem once_cons_of_ne (h : key' ≠ key) :
    Once ((key', x') :: members) key x ↔ Once members key x := by
  constructor
  · rintro ⟨before, after, heq, hother⟩
    cases before with
    | nil => exact absurd (Prod.mk.inj (List.cons.inj heq).1).1 h
    | cons m before =>
      obtain ⟨-, rfl⟩ := List.cons.inj heq
      exact ⟨before, after, rfl, (List.forall_mem_cons.mp hother).2⟩
  · rintro ⟨before, after, rfl, hother⟩
    exact ⟨(key', x') :: before, after, rfl, List.forall_mem_cons.mpr ⟨h, hother⟩⟩

theorem Once.forall₂ {β : Type} {R : α → β → Prop} {members' : List (String × β)}
    (h : Once members key x)
    (hall : List.Forall₂ (fun m n ↦ m.1 = n.1 ∧ R m.2 n.2) members members') :
    ∃ y, Once members' key y ∧ R x y := by
  induction hall with
  | nil => exact absurd h once_nil
  | @cons m n members members' hmn hall ih =>
    obtain ⟨key', x'⟩ := m
    obtain ⟨key'', y⟩ := n
    obtain ⟨rfl, hR⟩ : key' = key'' ∧ R x' y := hmn
    by_cases hkey : key' = key
    · subst hkey
      obtain ⟨rfl, hother⟩ := once_cons_self.mp h
      have hkeys : members.map Prod.fst = members'.map Prod.fst := by
        rw [← List.forall₂_eq_eq_eq, List.forall₂_map_left_iff, List.forall₂_map_right_iff]
        exact hall.imp fun _ _ h ↦ h.1
      refine ⟨y, once_cons_self.mpr ⟨rfl, fun m hm heq ↦ ?_⟩, hR⟩
      have hmem : m.1 ∈ members.map Prod.fst := hkeys ▸ List.mem_map_of_mem hm
      obtain ⟨m', hm', hm'eq⟩ := List.mem_map.mp hmem
      exact hother m' hm' (hm'eq.trans heq)
    · obtain ⟨y', hy', hR'⟩ := ih ((once_cons_of_ne hkey).mp h)
      exact ⟨y', (once_cons_of_ne hkey).mpr hy', hR'⟩

end Once

/-- The members are those of the trees. -/
def ShowsNamed (ms : List (String × Node)) (ts : List (String × Tree)) : Prop :=
  List.Forall₂ (fun m t ↦ m.1 = t.1 ∧ Shows m.2 t.2) ms ts

theorem ShowsNamed.skip {ms : List (String × Node)} {ts : List (String × Tree)}
    (h : ShowsNamed ms ts) : ∀ m ∈ ms, m.2.skip = .ok () := by
  induction h with
  | nil => simp
  | cons hm _ ih => exact List.forall_mem_cons.mpr ⟨hm.2.skip, ih⟩

theorem ShowsNamed.exists_once {ms : List (String × Node)} {ts : List (String × Tree)}
    {key : String} {t : Tree} (h : ShowsNamed ms ts) (honce : Once ts key t) :
    ∃ node, Once ms key node ∧ Shows node t := by
  have hback : List.Forall₂ (fun t m ↦ t.1 = m.1 ∧ Shows m.2 t.2) ts ms :=
    h.flip.imp fun _ _ h ↦ ⟨h.1.symm, h.2⟩
  exact honce.forall₂ (R := fun t m ↦ Shows m t) hback

/-- The members with the values of their keys. -/
def Kept (members : List Member) (named : List (String × Node)) : Prop :=
  List.Forall₂ (fun m n ↦ m.1.kept = .ok n.1 ∧ m.2 = n.2) members named

section Named

variable {members : List Member} {ts : List (List Char × Tree)} {named : List (String × Node)}
  {named' : List (String × Tree)}

theorem Kept.exists_named (h : Kept members named)
    (keys : List.Forall₂ ShowsText (members.map Prod.fst) (ts.map Prod.fst))
    (values : List.Forall₂ Shows (members.map Prod.snd) (ts.map Prod.snd)) :
    ∃ named', Tree.Named ts named' ∧ ShowsNamed named named' := by
  induction h generalizing ts with
  | nil =>
    obtain rfl : ts = [] := by simpa using keys
    exact ⟨[], .nil, .nil⟩
  | @cons m n members named hm hrest ih =>
    cases ts with
    | nil => cases keys
    | cons t ts =>
      obtain ⟨hkey, hkeys⟩ := List.forall₂_cons.mp keys
      obtain ⟨hvalue, hvalues⟩ := List.forall₂_cons.mp values
      obtain ⟨named', hnamed, hshows⟩ := ih hkeys hvalues
      exact ⟨(n.1, t.2) :: named', .cons ⟨(hkey.kept_iff _).mp hm.1, rfl⟩ hnamed,
        .cons ⟨rfl, hm.2 ▸ hvalue⟩ hshows⟩

theorem Tree.Named.exists_kept (h : Tree.Named ts named')
    (keys : List.Forall₂ ShowsText (members.map Prod.fst) (ts.map Prod.fst))
    (values : List.Forall₂ Shows (members.map Prod.snd) (ts.map Prod.snd)) :
    ∃ named, Kept members named ∧ ShowsNamed named named' := by
  induction h generalizing members with
  | nil =>
    obtain rfl : members = [] := by simpa using keys
    exact ⟨[], .nil, .nil⟩
  | @cons t n ts named' ht hrest ih =>
    cases members with
    | nil => cases keys
    | cons m members =>
      obtain ⟨hkey, hkeys⟩ := List.forall₂_cons.mp keys
      obtain ⟨hvalue, hvalues⟩ := List.forall₂_cons.mp values
      obtain ⟨named, hnamed, hshows⟩ := ih hkeys hvalues
      exact ⟨(n.1, m.2) :: named, .cons ⟨(hkey.kept_iff _).mpr ht.1, rfl⟩ hnamed,
        .cons ⟨rfl, ht.2 ▸ hvalue⟩ hshows⟩

end Named

/-- Members whose keys mean these texts. -/
def goodMembers (named : List (String × Node)) : List Member :=
  named.map fun m ↦ (.good m.1, m.2)

/-- The members give the field this value: one of them has its key, or none has and it may be
missing. -/
def Field.Finds {α : Type} (field : Field α) (members : List (String × Node)) (x : α) : Prop :=
  (field.absent = some x ∧ ∀ m ∈ members, m.1 ≠ field.key) ∨
    ∃ node, Once members field.key node ∧ field.codec.read node = .ok x

theorem Field.finds_required_iff {α : Type} {key : String} {codec : Codec α}
    {members : List (String × Node)} {x : α} :
    (Field.required key codec).Finds members x ↔
      ∃ node, Once members key node ∧ codec.read node = .ok x := by
  simp [Finds, required]

/-- The members take the slot of the field from the one state to the other. -/
def Field.Fills {α : Type} (field : Field α) (slot : Option α) (members : List (String × Node))
    (slot' : Option α) : Prop :=
  (slot' = slot ∧ ∀ m ∈ members, m.1 ≠ field.key) ∨
    (slot = none ∧ ∃ node x, Once members field.key node ∧ field.codec.read node = .ok x ∧
      slot' = some x)

namespace Field

variable {α : Type} {field : Field α} {slot slot' : Option α} {members : List (String × Node)}
  {node : Node} {key : String}

theorem fills_nil : field.Fills slot [] slot' ↔ slot' = slot := by
  simp [Fills, once_nil]

theorem fills_some {x : α} :
    field.Fills (some x) members slot' ↔ slot' = some x ∧ ∀ m ∈ members, m.1 ≠ field.key := by
  simp [Fills]

theorem fills_cons_self :
    field.Fills slot ((field.key, node) :: members) slot' ↔
      slot = none ∧ ∃ x, field.codec.read node = .ok x ∧ field.Fills (some x) members slot' := by
  simp only [fills_some]
  constructor
  · rintro (⟨-, hall⟩ | ⟨hslot, node', x, honce, hread, hslot'⟩)
    · exact absurd rfl (hall _ List.mem_cons_self)
    · obtain ⟨rfl, hother⟩ := once_cons_self.mp honce
      exact ⟨hslot, x, hread, hslot', hother⟩
  · rintro ⟨hslot, x, hread, hslot', hother⟩
    exact Or.inr ⟨hslot, node, x, once_cons_self.mpr ⟨rfl, hother⟩, hread, hslot'⟩

theorem fills_cons_of_ne (h : key ≠ field.key) :
    field.Fills slot ((key, node) :: members) slot' ↔ field.Fills slot members slot' := by
  simp [Fills, once_cons_of_ne h, h]

end Field

namespace Row

variable {α σ ρ : Type} {field : Field α} {row : Row σ ρ} {ms : List (String × Node)}

/-- **The slot of a field and those of the rest do not see each other's members.** -/
theorem fill_cons_iff (hkey : ∀ node slots, row.put field.key node slots = none)
    (hskip : ∀ m ∈ ms, m.2.skip = .ok ()) {slot slot' : Option α} {slots slots' : σ} :
    (cons field row).fill (slot, slots) (goodMembers ms) = .ok (slot', slots') ↔
      field.Fills slot ms slot' ∧ row.fill slots (goodMembers ms) = .ok slots' := by
  induction ms generalizing slot slots with
  | nil => simp [goodMembers, fill, Field.fills_nil, eq_comm]
  | cons m ms ih =>
    obtain ⟨key, node⟩ := m
    obtain ⟨hnode, hms⟩ := List.forall_mem_cons.mp hskip
    have hgood : goodMembers ((key, node) :: ms) = (.good key, node) :: goodMembers ms := rfl
    rw [hgood, fill_good, fill_good]
    by_cases h : key = field.key
    · subst h
      -- the rest passes the member over, so that only the slot of the field can fail here
      rw [hkey, Field.fills_cons_self]
      dsimp only
      rw [hnode]
      cases slot with
      | some x => simp [cons, Except.bind]
      | none =>
        rw [put_cons_self]
        cases field.codec.read node with
        | error t => simp [Except.bind, Functor.map, Except.map]
        | ok x => simpa [Except.bind, Functor.map, Except.map] using ih hms
    · rw [put_cons_of_ne h, Field.fills_cons_of_ne h]
      cases row.put key node slots with
      | none =>
        dsimp only [Option.map_none]
        rw [hnode]
        exact ih hms
      | some filled =>
        cases filled with
        | error t => simp [Except.bind, Functor.map, Except.map]
        | ok slots => exact ih hms

/-- The walk over the members ends with these values. -/
def Gathers (row : Row σ ρ) (members : List Member) (values : ρ) : Prop :=
  ∃ slots, row.fill row.empty members = .ok slots ∧ row.finish slots = .ok values

theorem gathers_cons_iff (hkey : ∀ node slots, row.put field.key node slots = none)
    (hskip : ∀ m ∈ ms, m.2.skip = .ok ()) {x : α} {values : ρ} :
    (cons field row).Gathers (goodMembers ms) (x, values) ↔
      field.Finds ms x ∧ row.Gathers (goodMembers ms) values := by
  have hfinish (slot : Option α) (slots : σ) :
      (cons field row).finish (slot, slots) = .ok (x, values) ↔
        (slot <|> field.absent) = some x ∧ row.finish slots = .ok values := by
    refine bind_eq_ok_iff.trans ?_
    cases (slot <|> field.absent) with
    | none => simp [orMismatch]
    | some y => simp [orMismatch, map_eq_ok_iff, and_comm]
  have hempty : (cons field row).empty = (none, row.empty) := rfl
  simp only [Gathers, Prod.exists, hempty, hfinish, fill_cons_iff hkey hskip]
  constructor
  · rintro ⟨slot, slots, ⟨hslot, hslots⟩, hx, hvalues⟩
    refine ⟨?_, slots, hslots, hvalues⟩
    rcases hslot with ⟨rfl, hnone⟩ | ⟨-, node, y, honce, hread, rfl⟩
    · exact Or.inl ⟨by simpa using hx, hnone⟩
    · obtain rfl : y = x := by simpa using hx
      exact Or.inr ⟨node, honce, hread⟩
  · rintro ⟨habsent | ⟨node, honce, hread⟩, slots, hslots, hvalues⟩
    · exact ⟨none, slots, ⟨Or.inl ⟨rfl, habsent.2⟩, hslots⟩, by simpa using habsent.1, hvalues⟩
    · exact ⟨some x, slots, ⟨Or.inr ⟨rfl, node, x, honce, hread, rfl⟩, hslots⟩, rfl, hvalues⟩

theorem fill_eq_ok_iff (members : List Member) {slots slots' : σ} :
    row.fill slots members = .ok slots' ↔
      ∃ named, Kept members named ∧ row.fill slots (goodMembers named) = .ok slots' := by
  induction members generalizing slots with
  | nil => simp [Kept, goodMembers]
  | cons m members ih =>
    obtain ⟨token, node⟩ := m
    have hkept : row.fill slots ((token, node) :: members) = .ok slots' ↔
        ∃ key, token.kept = .ok key ∧ row.fill slots ((.good key, node) :: members) = .ok slots' :=
      bind_eq_ok_iff
    have hrest (key : String) : row.fill slots ((.good key, node) :: members) = .ok slots' ↔
        ∃ named, Kept members named ∧
          row.fill slots ((.good key, node) :: goodMembers named) = .ok slots' := by
      simp only [fill_good]
      cases row.put key node slots with
      | none => cases node.skip <;> simp [Except.bind, ih]
      | some filled => cases filled <;> simp [Except.bind, ih]
    simp only [hkept, hrest, Kept, List.forall₂_cons_left_iff]
    constructor
    · rintro ⟨key, hkey, named, hall, hfill⟩
      exact ⟨(key, node) :: named, ⟨_, _, ⟨hkey, rfl⟩, hall, rfl⟩, hfill⟩
    · rintro ⟨_, ⟨⟨key, _⟩, named, ⟨hkey, rfl⟩, hall, rfl⟩, hfill⟩
      exact ⟨key, hkey, named, hall, hfill⟩

theorem fill_nil (hskip : ∀ m ∈ ms, m.2.skip = .ok ()) : nil.fill () (goodMembers ms) = .ok () := by
  induction ms with
  | nil => rfl
  | cons m ms ih =>
    obtain ⟨hm, hms⟩ := List.forall_mem_cons.mp hskip
    have hstep : nil.fill () (goodMembers (m :: ms)) =
        m.2.skip.bind fun _ ↦ nil.fill () (goodMembers ms) := rfl
    rw [hstep, hm]
    exact ih hms

/-! ## Rows -/

/-- The row takes records with values that fit, under these keys. -/
structure Takes (row : Row σ ρ) (keys : List String) (fits : List Tree → ρ → Prop) : Prop where
  unknown : ∀ key ∉ keys, ∀ node slots, row.put key node slots = none
  length : ∀ ts values, fits ts values → ts.length = keys.length
  items : ∀ nodes ts, List.Forall₂ Shows nodes ts →
    ∀ values, row.items nodes .closed = .ok values ↔ fits ts values
  gathers : ∀ ms ts, ShowsNamed ms ts →
    ∀ values, row.Gathers (goodMembers ms) values ↔
      ∃ vs, List.Forall₂ (Once ts) keys vs ∧ fits vs values

theorem Takes.nil : Row.nil.Takes [] fun ts _ ↦ ts = [] where
  unknown _ _ _ _ := rfl
  length := by simp
  items nodes ts hall values := by
    cases hall <;> simp [Row.nil, Ending.check]
  gathers ms ts hall values := by
    simp only [List.forall₂_nil_left_iff, exists_eq_left, iff_true]
    exact ⟨(), fill_nil hall.skip, rfl⟩

theorem Takes.cons (key : String) {keys : List String} {codec : Codec α}
    {form : Tree → α → Prop} {fits : List Tree → ρ → Prop} (hrow : row.Takes keys fits)
    (hcodec : codec.Takes form) (hkey : key ∉ keys) :
    (Row.cons (.required key codec) row).Takes (key :: keys) fun ts values ↦
      ∃ v vs, ts = v :: vs ∧ form v values.1 ∧ fits vs values.2 where
  unknown key' hkey' node slots := by
    rw [put_cons_of_ne (List.ne_of_not_mem_cons hkey'),
      hrow.unknown key' (List.not_mem_of_not_mem_cons hkey')]
    rfl
  length := by
    rintro ts values ⟨v, vs, rfl, -, hfits⟩
    simp [hrow.length _ _ hfits]
  items nodes ts hall values := by
    obtain ⟨x, values⟩ := values
    cases hall with
    | nil => simp [Row.cons, Field.required, orMismatch, Ending.check, bind, Except.bind]
    | @cons node t nodes ts hnode hall =>
      refine bind_eq_ok_iff.trans ?_
      have hread (y : α) : (Field.required key codec).codec.read node = .ok y ↔ form t y :=
        hcodec hnode y
      simp only [bind_eq_ok_iff, pure_eq_ok_iff, hrow.items nodes ts hall, hread, Prod.mk.injEq]
      constructor
      · rintro ⟨y, hy, rest, hrest, rfl, rfl⟩
        exact ⟨t, ts, rfl, hy, hrest⟩
      · rintro ⟨v, vs, heq, hform, hfits⟩
        obtain ⟨rfl, rfl⟩ := List.cons.inj heq
        exact ⟨x, hform, values, hfits, rfl, rfl⟩
  gathers ms ts hall values := by
    obtain ⟨x, values⟩ := values
    have honce : (∃ node, Once ms key node ∧ codec.read node = .ok x) ↔
        ∃ t, Once ts key t ∧ form t x := by
      constructor
      · rintro ⟨node, hnode, hread⟩
        obtain ⟨t, ht, hshows⟩ := hnode.forall₂ hall
        exact ⟨t, ht, (hcodec hshows x).mp hread⟩
      · rintro ⟨t, ht, hform⟩
        obtain ⟨node, hnode, hshows⟩ := hall.exists_once ht
        exact ⟨node, hnode, (hcodec hshows x).mpr hform⟩
    rw [gathers_cons_iff (hrow.unknown key hkey) hall.skip, Field.finds_required_iff, honce,
      hrow.gathers ms ts hall]
    simp only [List.forall₂_cons_left_iff]
    constructor
    · rintro ⟨⟨t, ht, hform⟩, vs, hvs, hfits⟩
      exact ⟨t :: vs, ⟨t, vs, ht, hvs, rfl⟩, t, vs, rfl, hform, hfits⟩
    · rintro ⟨_, ⟨t, vs, ht, hvs, rfl⟩, _, _, heq, hform, hfits⟩
      obtain ⟨rfl, rfl⟩ := List.cons.inj heq
      exact ⟨⟨t, ht, hform⟩, vs, hvs, hfits⟩

theorem gathers_iff {members : List Member} {values : ρ} :
    row.Gathers members values ↔
      ∃ named, Kept members named ∧ row.Gathers (goodMembers named) values := by
  simp only [Gathers, fill_eq_ok_iff members]
  constructor
  · rintro ⟨slots, ⟨named, hnamed, hfill⟩, hfinish⟩
    exact ⟨named, hnamed, slots, hfill, hfinish⟩
  · rintro ⟨named, hnamed, slots, hfill, hfinish⟩
    exact ⟨slots, ⟨named, hnamed, hfill⟩, hfinish⟩

theorem read_object_eq_ok_iff {members : List Member} {values : ρ} :
    row.read (.object members .closed) = .ok values ↔ row.Gathers members values := by
  simp [read, Gathers, Ending.check, bind_eq_ok_iff]

theorem Takes.read_eq_ok_iff {keys : List String} {fits : List Tree → ρ → Prop}
    (hrow : row.Takes keys fits) {node : Node} {t : Tree} (h : Shows node t) (values : ρ) :
    row.read node = .ok values ↔ ∃ vs, t.IsRecord keys vs ∧ fits vs values := by
  cases h with
  | word | number | text => simp [Row.read, Tree.IsRecord]
  | @array nodes ts items =>
    refine (hrow.items nodes ts items values).trans ?_
    constructor
    · exact fun hfits ↦ ⟨ts, Or.inl ⟨rfl, hrow.length ts values hfits⟩, hfits⟩
    · rintro ⟨vs, ⟨heq, -⟩ | ⟨_, _, heq, -⟩, hfits⟩
      · cases heq
        exact hfits
      · cases heq
  | @object members ts hkeys hvalues =>
    rw [read_object_eq_ok_iff, gathers_iff]
    constructor
    · rintro ⟨named, hnamed, hgathers⟩
      obtain ⟨named', htrees, hshows⟩ := hnamed.exists_named hkeys hvalues
      obtain ⟨vs, hvs, hfits⟩ := (hrow.gathers named named' hshows values).mp hgathers
      exact ⟨vs, Or.inr ⟨ts, named', rfl, htrees, hvs⟩, hfits⟩
    · rintro ⟨vs, ⟨heq, -⟩ | ⟨_, named', heq, htrees, hvs⟩, hfits⟩
      · cases heq
      · cases heq
        obtain ⟨named, hnamed, hshows⟩ := htrees.exists_kept hkeys hvalues
        exact ⟨named, hnamed, (hrow.gathers named named' hshows values).mpr ⟨vs, hvs, hfits⟩⟩

end Row

/-- **A record is read from an object that has each of its keys once**, or from the bare list. -/
theorem Row.Takes.record {α σ ρ : Type} {row : Row σ ρ} {keys : List String}
    {fits : List Tree → ρ → Prop} (hrow : row.Takes keys fits) (make : ρ → α) (fields : α → ρ) :
    (Codec.record row make fields).Takes fun t x ↦
      ∃ values, (∃ vs, t.IsRecord keys vs ∧ fits vs values) ∧ make values = x := by
  intro node t h x
  simp only [← hrow.read_eq_ok_iff h]
  exact map_eq_ok_iff

/-- A record of three has a value for each of its keys. -/
theorem Codec.takes_record_three {α β γ δ : Type} {codec : Codec β} {codec' : Codec γ}
    {codec'' : Codec δ} {form : Tree → β → Prop} {form' : Tree → γ → Prop}
    {form'' : Tree → δ → Prop} {key key' key'' : String} (hkeys : [key, key', key''].Nodup)
    (h : codec.Takes form) (h' : codec'.Takes form') (h'' : codec''.Takes form'')
    (make : β × γ × δ × Unit → α) (fields : α → β × γ × δ × Unit) :
    (Codec.record (.cons (.required key codec) (.cons (.required key' codec')
        (.cons (.required key'' codec'') .nil))) make fields).Takes fun t x ↦
      ∃ v v' v'', t.IsRecord [key, key', key''] [v, v', v''] ∧
        ∃ y y' y'', form v y ∧ form' v' y' ∧ form'' v'' y'' ∧ make (y, y', y'', ()) = x := by
  intro node t hshows x
  obtain ⟨hkey, hkeys'⟩ := List.nodup_cons.mp hkeys
  obtain ⟨hkey', -⟩ := List.nodup_cons.mp hkeys'
  have hrest := (Row.Takes.nil.cons key'' h'' List.not_mem_nil).cons key' h' hkey'
  refine ((hrest.cons key h hkey).record make fields hshows x).trans ?_
  constructor
  · rintro ⟨⟨y, y', y'', u⟩, ⟨vs, hrecord, hfits⟩, hmake⟩
    obtain ⟨v, _, rfl, hv, v', _, rfl, hv', v'', _, rfl, hv'', rfl⟩ := hfits
    exact ⟨v, v', v'', hrecord, y, y', y'', hv, hv', hv'', hmake⟩
  · rintro ⟨v, v', v'', hrecord, y, y', y'', hv, hv', hv'', hmake⟩
    refine ⟨(y, y', y'', ()), ⟨[v, v', v''], hrecord, ?_⟩, hmake⟩
    exact ⟨v, [v', v''], rfl, hv, v', [v''], rfl, hv', v'', [], rfl, hv'', rfl⟩

/-! ## Documents -/

namespace Codec

variable {α : Type} {codec : Codec α} {form : Tree → α → Prop}

/-- The codec takes no value that is in trouble. -/
def Settles (codec : Codec α) : Prop := ∀ node x, codec.read node = .ok x → node.skip = .ok ()

theorem settles_list (codec : Codec α) : codec.list.Settles := by
  intro node xs h
  cases node with
  | array items ending =>
    obtain ⟨ys, -, hending⟩ := bind_eq_ok_iff.mp h
    obtain ⟨_, hcheck, -⟩ := bind_eq_ok_iff.mp hending
    exact hcheck
  | missing | word | number | text | object => cases h

/-- **A text is read as a value if it is written of a tree that has the form of it.** -/
theorem Takes.readText_eq_ok_iff (h : codec.Takes form) (hsettles : codec.Settles)
    {source : String} {x : α} :
    codec.readText source = .ok x ↔ ∃ t, Writes source.toList t ∧ form t x := by
  constructor
  · intro hread
    obtain ⟨y, hroot, hend⟩ := bind_eq_ok_iff.mp hread
    split at hend
    · cases hend
    · rename_i htrailing
      obtain rfl := pure_eq_ok_iff.mp hend
      obtain ⟨t, hwrites, hshows⟩ :=
        exists_writes_of_read (hsettles _ _ hroot) (by simpa using htrailing)
      exact ⟨t, hwrites, (h hshows y).mp hroot⟩
  · rintro ⟨t, hwrites, hform⟩
    obtain ⟨node, hshows, hdocument⟩ := hwrites.exists_read
    rw [readText, readGlyphs, hdocument, readDocument]
    simpa [bind_eq_ok_iff, pure_eq_ok_iff] using (h hshows x).mpr hform

end Codec

end MailRules.Json
