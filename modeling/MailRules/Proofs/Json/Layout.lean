import Mathlib
import MailRules.Proofs.Json.Spelling

/-!
# Written values are spellings

A value that is written is a tree that can be read (`Value.node`), and both of its layouts are
spellings of that tree: layouts differ in blanks, and blanks are free. The layouts write the first
element of a list apart from the others and the closing bracket with the others, where the grammar
has the elements together and the bracket apart. `ClosesItems` and `ClosesMembers` turn the one into
the other.
-/

namespace MailRules.Json

open MailRules.Text

/-! ## Trees of values -/

mutual

/-- The tree of a value. -/
def Value.node : Value → Node
  | .null => .word (.good .null)
  | .bool true => .word (.good .yes)
  | .bool false => .word (.good .no)
  | .number n => .number (writtenNumber n)
  | .text s => .text (.good s)
  | .array vs => .array (nodesOf vs) .closed
  | .object ms => .object (membersOf ms) .closed

def nodesOf : List Value → List Node
  | [] => []
  | v :: vs => v.node :: nodesOf vs

def membersOf : List (String × Value) → List Member
  | [] => []
  | (key, v) :: ms => (.good key, v.node) :: membersOf ms

end

/-! ## Elements up to the closing bracket -/

section Closing

variable {w s t : List Glyph} {node : Node} {nodes : List Node} {member : Member}
  {members : List Member}

/-- After any item, the text is the items and the bracket that closes them. -/
def ClosesItems (t : List Glyph) (nodes : List Node) : Prop :=
  ∀ s node, Spells s (.value node) →
    ∃ u, s ++ t = u ++ [.char ']'] ∧ Spells u (.items (node :: nodes))

/-- After any member, the text is the members and the bracket that closes them. -/
def ClosesMembers (t : List Glyph) (members : List Member) : Prop :=
  ∀ s member, Spells s (.member member) →
    ∃ u, s ++ t = u ++ [.char '\x7d'] ∧ Spells u (.members (member :: members))

theorem closesItems_nil (hw : Blank w) : ClosesItems (w ++ [.char ']']) [] := by
  intro s node hs
  exact ⟨s ++ w, by simp, .item (.blanks (w := []) blank_nil hs hw)⟩

theorem ClosesItems.cons (h : ClosesItems t nodes) (hs : Spells s (.value node)) :
    ClosesItems (.char ',' :: (s ++ t)) (node :: nodes) := by
  intro s' node' hs'
  obtain ⟨u, hu, hitems⟩ := h _ _ hs
  exact ⟨s' ++ .char ',' :: u, by simp [hu], .items hs' hitems⟩

theorem ClosesItems.array (h : ClosesItems t nodes) (hs : Spells s (.value node)) :
    Spells (.char '[' :: (s ++ t)) (.value (.array (node :: nodes) .closed)) := by
  obtain ⟨u, hu, hitems⟩ := h _ _ hs
  rw [hu]
  exact .array hitems

/-- The blanks after a member are those after its value. -/
theorem Spells.member_append (h : Spells s (.member member)) (hw : Blank w) :
    Spells (s ++ w) (.member member) := by
  cases h with
  | entry before name good after value =>
    rw [List.append_assoc, List.cons_append]
    exact .entry before name good after (.blanks (w := []) blank_nil value hw)

theorem closesMembers_nil (hw : Blank w) : ClosesMembers (w ++ [.char '\x7d']) [] := by
  intro s member hs
  exact ⟨s ++ w, by simp, .member (hs.member_append hw)⟩

theorem ClosesMembers.cons (h : ClosesMembers t members) (hs : Spells s (.member member)) :
    ClosesMembers (.char ',' :: (s ++ t)) (member :: members) := by
  intro s' member' hs'
  obtain ⟨u, hu, hmembers⟩ := h _ _ hs
  exact ⟨s' ++ .char ',' :: u, by simp [hu], .members hs' hmembers⟩

theorem ClosesMembers.object (h : ClosesMembers t members) (hs : Spells s (.member member)) :
    Spells (.char '\x7b' :: (s ++ t)) (.value (.object (member :: members) .closed)) := by
  obtain ⟨u, hu, hmembers⟩ := h _ _ hs
  rw [hu]
  exact .object hmembers

end Closing

/-! ## Texts and numbers -/

theorem glyphs_append (s t : List Char) : glyphs (s ++ t) = glyphs s ++ glyphs t := List.map_append

theorem glyphs_cons (c : Char) (s : List Char) : glyphs (c :: s) = .char c :: glyphs s := rfl

theorem spells_quote (s : String) : Spells (glyphs (quote s)) (.value (.text (.good s))) :=
  .scalar (fun rest _ ↦ scalar?_quote s rest) rfl

theorem spells_writtenInt (n : ℤ) :
    Spells (glyphs (writtenInt n)) (.value (.number (writtenNumber n))) :=
  .scalar (fun _ hrest ↦ scalar?_of_number? (number?_writtenInt n hrest)) rfl

/-- A member with its key quoted, after blanks. -/
theorem spells_member {w w' s : List Glyph} {node : Node} (key : String) (hw : Blank w)
    (hw' : Blank w') (hs : Spells s (.value node)) :
    Spells (w ++ glyphs (quote key) ++ .char ':' :: (w' ++ s)) (.member (.good key, node)) := by
  have hkey : ∀ rest, text (glyphs (key.toList.flatMap escape) ++ [.char '"'] ++ rest) =
      (.good key, rest) := by
    intro rest
    rw [List.append_assoc, List.singleton_append, text_escaped]
  have h := Spells.entry hw hkey rfl blank_nil (.blanks hw' hs blank_nil)
  simpa [glyphs_quote] using h

/-! ## The compact layout -/

mutual

theorem Value.spells_compact : ∀ v : Value, Spells (glyphs v.compact) (.value v.node)
  | .null => .scalar (fun _ _ ↦ rfl) rfl
  | .bool true => .scalar (fun _ _ ↦ rfl) rfl
  | .bool false => .scalar (fun _ _ ↦ rfl) rfl
  | .number n => spells_writtenInt n
  | .text s => spells_quote s
  | .array [] => .emptyArray blank_nil
  | .object [] => .emptyObject blank_nil
  | .array (v :: vs) => by
    have h := (closes_compactItems vs).array v.spells_compact
    simpa [Value.compact, Value.node, nodesOf, glyphs_append, glyphs_cons] using h
  | .object ((key, v) :: ms) => by
    have hv := spells_member key blank_nil blank_nil v.spells_compact
    have h := (closes_compactMembers ms).object hv
    simpa [Value.compact, Value.node, membersOf, glyphs_append, glyphs_cons] using h

theorem closes_compactItems :
    ∀ vs : List Value, ClosesItems (glyphs (Value.compactItems vs)) (nodesOf vs)
  | [] => closesItems_nil blank_nil
  | v :: vs => by
    have h := (closes_compactItems vs).cons v.spells_compact
    simpa [Value.compactItems, nodesOf, glyphs_append, glyphs_cons] using h

theorem closes_compactMembers :
    ∀ ms : List (String × Value),
      ClosesMembers (glyphs (Value.compactMembers ms)) (membersOf ms)
  | [] => closesMembers_nil blank_nil
  | (key, v) :: ms => by
    have hv := spells_member key blank_nil blank_nil v.spells_compact
    have h := (closes_compactMembers ms).cons hv
    simpa [Value.compactMembers, membersOf, glyphs_append, glyphs_cons] using h

end

/-- **The compact text of a value is a document of its tree.** -/
theorem Value.read_compactText (v : Value) :
    Document.read (glyphs v.compactText.toList) = ⟨v.node, false⟩ := by
  rw [compactText, String.toList_ofList]
  exact Document.read_of_spells v.spells_compact

/-! ## The indented layout -/

theorem blank_space : Blank [.char ' '] := by
  intro g hg
  rw [List.mem_singleton.mp hg]
  decide

theorem blank_newLine (level : ℕ) : Blank (glyphs (Value.newLine level)) := by
  intro g hg
  rw [Value.newLine, glyphs_cons, glyphs, List.map_replicate] at hg
  rcases List.mem_cons.mp hg with rfl | hg
  · decide
  · rw [List.eq_of_mem_replicate hg]
    decide

mutual

theorem Value.spells_indented (level : ℕ) :
    ∀ v : Value, Spells (glyphs (v.indented level)) (.value v.node)
  | .null => .scalar (fun _ _ ↦ rfl) rfl
  | .bool true => .scalar (fun _ _ ↦ rfl) rfl
  | .bool false => .scalar (fun _ _ ↦ rfl) rfl
  | .number n => spells_writtenInt n
  | .text s => spells_quote s
  | .array [] => .emptyArray blank_nil
  | .object [] => .emptyObject blank_nil
  | .array (v :: vs) => by
    have hv := Spells.blanks (blank_newLine (level + 1)) (v.spells_indented (level + 1)) blank_nil
    have h := (closes_indentedItems level vs).array hv
    simpa [Value.indented, Value.node, nodesOf, glyphs_append, glyphs_cons] using h
  | .object ((key, v) :: ms) => by
    have hv := spells_member key (blank_newLine (level + 1)) blank_space
      (v.spells_indented (level + 1))
    have h := (closes_indentedMembers level ms).object hv
    simpa [Value.indented, Value.node, membersOf, glyphs_append, glyphs_cons] using h

theorem closes_indentedItems (level : ℕ) :
    ∀ vs : List Value, ClosesItems (glyphs (Value.indentedItems level vs)) (nodesOf vs)
  | [] => by
    rw [Value.indentedItems, glyphs_append]
    exact closesItems_nil (blank_newLine level)
  | v :: vs => by
    have hv := Spells.blanks (blank_newLine (level + 1)) (v.spells_indented (level + 1)) blank_nil
    have h := (closes_indentedItems level vs).cons hv
    simpa [Value.indentedItems, nodesOf, glyphs_append, glyphs_cons] using h

theorem closes_indentedMembers (level : ℕ) :
    ∀ ms : List (String × Value),
      ClosesMembers (glyphs (Value.indentedMembers level ms)) (membersOf ms)
  | [] => by
    rw [Value.indentedMembers, glyphs_append]
    exact closesMembers_nil (blank_newLine level)
  | (key, v) :: ms => by
    have hv := spells_member key (blank_newLine (level + 1)) blank_space
      (v.spells_indented (level + 1))
    have h := (closes_indentedMembers level ms).cons hv
    simpa [Value.indentedMembers, membersOf, glyphs_append, glyphs_cons] using h

end

/-- **The indented text of a value is a document of its tree.** -/
theorem Value.read_indentedText (v : Value) :
    Document.read (glyphs v.indentedText.toList) = ⟨v.node, false⟩ := by
  rw [indentedText, String.toList_ofList]
  exact Document.read_of_spells (v.spells_indented 0)

end MailRules.Json
