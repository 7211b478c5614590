import Mathlib
import MailRules.Proofs.Json.Token

/-!
# Texts of documents

Which text is a spelling of which tree is a matter of grammar, and says nothing of frames or of
what is read first. `Spells` is that grammar, for the trees that are whole: blanks may stand around
every value and every key, and a value without brackets may be written in any way that a token of
it can. What stands between the brackets of an array or an object is a part with a spelling of its
own, and so is a member.

The reader takes a spelling to the tree it spells (`Document.read_of_spells`). The statement to
prove along the grammar is that it reads on after a value as it would have read on after anything
else with that value, whatever is open around it; and after what stands between brackets as after
the array or the object that the closing bracket makes of it (`Part.Read`).
-/

namespace MailRules.Json

open MailRules.Text

/-! ## Blanks -/

/-- Nothing but blanks. -/
def Blank (w : List Glyph) : Prop := ∀ g ∈ w, isBlank g = true

@[simp] theorem blank_nil : Blank [] := by simp [Blank]

/-- The text starts with a character that is neither a blank nor a closing bracket. -/
def Opens (s : List Glyph) : Prop :=
  ∃ c t, s = .char c :: t ∧ isBlank (.char c) = false ∧ c ≠ ']' ∧ c ≠ '}'

section Blanks

variable {w s t : List Glyph} {c : Char}

theorem skipBlank_append (hw : Blank w) : skipBlank (w ++ s) = skipBlank s :=
  List.dropWhile_append_of_pos hw

theorem skipBlank_cons (h : isBlank (.char c) = false) :
    skipBlank (.char c :: s) = .char c :: s := by
  rw [skipBlank, List.dropWhile_cons_of_neg (by simp [h])]

theorem Opens.append (h : Opens s) (t : List Glyph) : Opens (s ++ t) := by
  obtain ⟨c, u, rfl, h⟩ := h
  exact ⟨c, u ++ t, rfl, h⟩

theorem Opens.skipBlank_eq (h : Opens s) : skipBlank s = s := by
  obtain ⟨c, t, rfl, hblank, -⟩ := h
  exact skipBlank_cons hblank

/-- What comes after a value that opens does not matter to the blanks before it. -/
theorem Opens.skipBlank_append (h : Opens (skipBlank s)) (t : List Glyph) :
    skipBlank (s ++ t) = skipBlank s ++ t := by
  rw [skipBlank, List.dropWhile_append, if_neg, ← skipBlank]
  obtain ⟨c, u, hs, -⟩ := h
  rw [skipBlank] at hs
  simp [hs]

theorem delimits_append_of_blank (hw : Blank w) (hs : Delimits s) : Delimits (w ++ s) := by
  cases w with
  | nil => exact hs
  | cons g w =>
    cases g with
    | stray n => simp [Delimits]
    | char c =>
      have hc : isBlank (.char c) = true := hw _ List.mem_cons_self
      simp only [isBlank, Bool.or_eq_true, beq_iff_eq] at hc
      rcases hc with ((rfl | rfl) | rfl) | rfl <;> simp <;> decide

end Blanks

/-! ## The grammar -/

/-- What a text can be a spelling of. -/
inductive Part
  | value (node : Node)
  /-- What stands between the brackets of an array. -/
  | items (nodes : List Node)
  | member (member : Member)
  /-- What stands between the brackets of an object. -/
  | members (members : List Member)

/-- The text is a spelling of the part. -/
inductive Spells : List Glyph → Part → Prop
  | scalar {s node} (read : ∀ rest, Delimits rest → scalar? (s ++ rest) = some (node, rest))
      (good : node.skip = .ok ()) : Spells s (.value node)
  | blanks {w w' s node} (before : Blank w) (value : Spells s (.value node)) (after : Blank w') :
      Spells (w ++ s ++ w') (.value node)
  | emptyArray {w} (between : Blank w) :
      Spells (.char '[' :: w ++ [.char ']']) (.value (.array [] .closed))
  | array {s nodes} (between : Spells s (.items nodes)) :
      Spells (.char '[' :: s ++ [.char ']']) (.value (.array nodes .closed))
  | emptyObject {w} (between : Blank w) :
      Spells (.char '\x7b' :: w ++ [.char '\x7d']) (.value (.object [] .closed))
  | object {s members} (between : Spells s (.members members)) :
      Spells (.char '\x7b' :: s ++ [.char '\x7d']) (.value (.object members .closed))
  | item {s node} (value : Spells s (.value node)) : Spells s (.items [node])
  | items {s t node nodes} (value : Spells s (.value node)) (more : Spells t (.items nodes)) :
      Spells (s ++ .char ',' :: t) (.items (node :: nodes))
  | entry {w w' k s key node} (before : Blank w) (name : ∀ rest, text (k ++ rest) = (key, rest))
      (good : key.skipped = .ok ()) (after : Blank w') (value : Spells s (.value node)) :
      Spells (w ++ .char '"' :: k ++ w' ++ .char ':' :: s) (.member (key, node))
  | member {s m} (member : Spells s (.member m)) : Spells s (.members [m])
  | members {s t m ms} (member : Spells s (.member m)) (more : Spells t (.members ms)) :
      Spells (s ++ .char ',' :: t) (.members (m :: ms))

/-! ## Steps of the reader -/

section Steps

variable {s t u rest : List Glyph} {frames : List Frame} {node : Node} {items : List Node}
  {members : List Member} {key : Token String}

/-- The reader starts after the blanks. -/
theorem readValue_congr (h : skipBlank s = skipBlank t) :
    readValue frames s = readValue frames t := by
  rw [readValue, readValue]
  dsimp only
  rw [h]

theorem readOn_congr (h : skipBlank s = skipBlank t) :
    readOn frames node s = readOn frames node t := by
  cases frames with
  | nil => rw [readOn, readOn, h]
  | cons frame frames =>
    cases frame <;> rw [readOn, readOn] <;> dsimp only <;> rw [h]

theorem opens_of_scalar? (h : scalar? s = some (node, rest)) : Opens s := by
  cases s with
  | nil => simp [scalar?, word?, number?] at h
  | cons g s =>
    cases g with
    | stray n => simp [scalar?, word?, number?] at h
    | char c =>
      by_cases hdigit : isDigit c = true
      · have hne (d : Char) (hd : isDigit d = false) : c ≠ d := by
          rintro rfl
          rw [hd] at hdigit
          cases hdigit
        refine ⟨c, s, rfl, ?_, hne ']' (by decide), hne '\x7d' (by decide)⟩
        simp [isBlank, hne ' ' (by decide), hne '\t' (by decide), hne '\n' (by decide),
          hne '\r' (by decide)]
      · have hstart : c = '"' ∨ c = 'n' ∨ c = 't' ∨ c = 'f' ∨ c = '-' := by
          by_contra hc
          simp only [not_or] at hc
          simp [scalar?, word?, number?, hc, hdigit] at h
        rcases hstart with rfl | rfl | rfl | rfl | rfl <;>
          exact ⟨_, s, rfl, by decide, by decide, by decide⟩

theorem readValue_scalar (h : scalar? (skipBlank s) = some (node, rest))
    (hgood : node.skip = .ok ()) : readValue frames s = readOn frames node rest := by
  rw [readValue]
  dsimp only
  split
  · simp_all [scalar?, word?, number?, (by decide : isDigit '[' = false)]
  · simp_all [scalar?, word?, number?, (by decide : isDigit '\x7b' = false)]
  · rw [h]
    dsimp only
    rw [hgood]

theorem readValue_array (h : skipBlank s = .char '[' :: t) (hopens : Opens (skipBlank t)) :
    readValue frames s = readValue (.array [] :: frames) t := by
  obtain ⟨c, u, ht, -, hbracket, -⟩ := hopens
  rw [readValue]
  dsimp only
  rw [h]
  simp_all

theorem readValue_emptyArray (h : skipBlank s = .char '[' :: t)
    (ht : skipBlank t = .char ']' :: rest) :
    readValue frames s = readOn frames (.array [] .closed) rest := by
  rw [readValue]
  dsimp only
  rw [h]
  split
  case h_1 heq =>
    obtain ⟨-, rfl⟩ := List.cons.inj heq
    rw [ht]
    rfl
  case h_2 heq => cases heq
  case h_3 hbracket _ => exact absurd rfl (hbracket t)

theorem readValue_object (h : skipBlank s = .char '\x7b' :: t) (hopens : Opens (skipBlank t)) :
    readValue frames s = readKey frames [] t := by
  obtain ⟨c, u, ht, -, -, hbrace⟩ := hopens
  rw [readValue]
  dsimp only
  rw [h]
  simp_all

theorem readValue_emptyObject (h : skipBlank s = .char '\x7b' :: t)
    (ht : skipBlank t = .char '\x7d' :: rest) :
    readValue frames s = readOn frames (.object [] .closed) rest := by
  rw [readValue]
  dsimp only
  rw [h]
  split
  case h_1 heq => cases heq
  case h_2 heq =>
    obtain ⟨-, rfl⟩ := List.cons.inj heq
    rw [ht]
    rfl
  case h_3 _ hbrace => exact absurd rfl (hbrace t)

theorem readKey_key (h : skipBlank s = .char '"' :: t) (hkey : text t = (key, u))
    (hgood : key.skipped = .ok ()) (hcolon : skipBlank u = .char ':' :: rest) :
    readKey frames members s = readValue (.object members key :: frames) rest := by
  rw [readKey]
  dsimp only
  rw [h]
  split
  case h_1 heq =>
    obtain ⟨-, rfl⟩ := List.cons.inj heq
    rw [hkey]
    dsimp only
    rw [hgood]
    dsimp only
    rw [hcolon]
    rfl
  case h_2 hquote => exact absurd rfl (hquote t)

theorem readOn_item (h : skipBlank s = .char ',' :: rest) :
    readOn (.array items :: frames) node s = readValue (.array (node :: items) :: frames) rest := by
  rw [readOn]
  dsimp only
  rw [h]
  rfl

theorem readOn_closeArray (h : skipBlank s = .char ']' :: rest) :
    readOn (.array items :: frames) node s =
      readOn frames (.array (node :: items).reverse .closed) rest := by
  rw [readOn]
  dsimp only
  rw [h]
  rfl

theorem readOn_member (h : skipBlank s = .char ',' :: rest) :
    readOn (.object members key :: frames) node s =
      readKey frames ((key, node) :: members) rest := by
  rw [readOn]
  dsimp only
  rw [h]
  rfl

theorem readOn_closeObject (h : skipBlank s = .char '\x7d' :: rest) :
    readOn (.object members key :: frames) node s =
      readOn frames (.object ((key, node) :: members).reverse .closed) rest := by
  rw [readOn]
  dsimp only
  rw [h]
  rfl

end Steps

/-! ## The reader and the grammar -/

/-- The reader reads on after the part as it has to. -/
def Part.Read (s : List Glyph) : Part → Prop
  | value node => ∀ frames rest, Delimits rest →
    readValue frames (s ++ rest) = readOn frames node rest
  | items nodes => ∀ frames items rest,
    readValue (.array items :: frames) (s ++ .char ']' :: rest) =
      readOn frames (.array (items.reverse ++ nodes) .closed) rest
  | member (key, node) => ∀ frames members rest, Delimits rest →
    readKey frames members (s ++ rest) = readOn (.object members key :: frames) node rest
  | members ms => ∀ frames members rest,
    readKey frames members (s ++ .char '\x7d' :: rest) =
      readOn frames (.object (members.reverse ++ ms) .closed) rest

theorem Spells.opens {s : List Glyph} {part : Part} (h : Spells s part) : Opens (skipBlank s) := by
  have hstart {c : Char} {t : List Glyph} (hblank : isBlank (.char c) = false) (hc : c ≠ ']')
      (hc' : c ≠ '\x7d') : Opens (skipBlank (.char c :: t)) := by
    rw [skipBlank_cons hblank]
    exact ⟨c, t, rfl, hblank, hc, hc'⟩
  induction h with
  | @scalar s node read good =>
    have hscalar := read [] delimits_nil
    rw [List.append_nil] at hscalar
    have hopens := opens_of_scalar? hscalar
    rwa [hopens.skipBlank_eq]
  | blanks before value after ih =>
    rw [List.append_assoc, skipBlank_append before, ih.skipBlank_append]
    exact ih.append _
  | emptyArray between => exact hstart (by decide) (by decide) (by decide)
  | array between ih => exact hstart (by decide) (by decide) (by decide)
  | emptyObject between => exact hstart (by decide) (by decide) (by decide)
  | object between ih => exact hstart (by decide) (by decide) (by decide)
  | item value ih => exact ih
  | items value more ih =>
    rw [ih.skipBlank_append]
    exact ih.append _
  | entry before name good after value =>
    rw [List.append_assoc, List.append_assoc, skipBlank_append before]
    exact hstart (by decide) (by decide) (by decide)
  | member member ih => exact ih
  | members member more ih =>
    rw [ih.skipBlank_append]
    exact ih.append _

/-- **A spelling is read as what it spells.** -/
theorem Spells.read {s : List Glyph} {part : Part} (h : Spells s part) : part.Read s := by
  -- what is read before a comma or a bracket is followed by it, and a number ends there
  induction h with
  | scalar read good =>
    intro frames rest hrest
    have hscalar := read rest hrest
    exact readValue_scalar (by rwa [(opens_of_scalar? hscalar).skipBlank_eq]) good
  | @blanks w w' s node before value after ih =>
    intro frames rest hrest
    rw [List.append_assoc, List.append_assoc, readValue_congr (skipBlank_append before),
      ih frames _ (delimits_append_of_blank after hrest)]
    exact readOn_congr (skipBlank_append after)
  | @emptyArray w between =>
    intro frames rest _
    have hopen : isBlank (.char '[') = false := by decide
    have hclose : isBlank (.char ']') = false := by decide
    rw [List.cons_append, List.cons_append, List.append_assoc, List.singleton_append]
    exact readValue_emptyArray (skipBlank_cons hopen)
      ((skipBlank_append between).trans (skipBlank_cons hclose))
  | @array s nodes between ih =>
    intro frames rest _
    have hopens := between.opens.skipBlank_append (.char ']' :: rest)
    rw [List.cons_append, List.cons_append, List.append_assoc, List.singleton_append,
      readValue_array (skipBlank_cons (by decide)) (hopens ▸ between.opens.append _), ih]
    rfl
  | @emptyObject w between =>
    intro frames rest _
    have hopen : isBlank (.char '\x7b') = false := by decide
    have hclose : isBlank (.char '\x7d') = false := by decide
    rw [List.cons_append, List.cons_append, List.append_assoc, List.singleton_append]
    exact readValue_emptyObject (skipBlank_cons hopen)
      ((skipBlank_append between).trans (skipBlank_cons hclose))
  | object between ih =>
    intro frames rest _
    have hopens := between.opens.skipBlank_append (.char '\x7d' :: rest)
    rw [List.cons_append, List.cons_append, List.append_assoc, List.singleton_append,
      readValue_object (skipBlank_cons (by decide)) (hopens ▸ between.opens.append _), ih]
    rfl
  | @item s node value ih =>
    intro frames items rest
    rw [ih _ _ (delimits_cons.mpr (by decide)), readOn_closeArray (skipBlank_cons (by decide)),
      List.reverse_cons]
  | @items s t node nodes value more ihvalue ih =>
    intro frames items rest
    rw [List.append_assoc, List.cons_append, ihvalue _ _ (delimits_cons.mpr (by decide)),
      readOn_item (skipBlank_cons (by decide)), ih, List.reverse_cons, List.append_assoc,
      List.singleton_append]
  | @entry w w' k s key node before name good after value ih =>
    intro frames members rest hrest
    have hquote : skipBlank (w ++ .char '"' :: k ++ w' ++ .char ':' :: s ++ rest) =
        .char '"' :: (k ++ (w' ++ .char ':' :: (s ++ rest))) := by
      simp only [List.append_assoc, List.cons_append]
      exact (skipBlank_append before).trans (skipBlank_cons (by decide))
    have hcolon : skipBlank (w' ++ .char ':' :: (s ++ rest)) = .char ':' :: (s ++ rest) :=
      (skipBlank_append after).trans (skipBlank_cons (by decide))
    rw [readKey_key hquote (name _) good hcolon, ih _ _ hrest]
  | @member s m member ih =>
    obtain ⟨key, node⟩ := m
    intro frames members rest
    rw [ih _ _ _ (delimits_cons.mpr (by decide)), readOn_closeObject (skipBlank_cons (by decide)),
      List.reverse_cons]
  | @members s t m ms member more ihmember ih =>
    obtain ⟨key, node⟩ := m
    intro frames members rest
    rw [List.append_assoc, List.cons_append, ihmember _ _ _ (delimits_cons.mpr (by decide)),
      readOn_member (skipBlank_cons (by decide)), ih, List.reverse_cons, List.append_assoc,
      List.singleton_append]

/-- **A spelling of a value is a document with that value**, and nothing comes after it. -/
theorem Document.read_of_spells {s : List Glyph} {node : Node} (h : Spells s (.value node)) :
    Document.read s = ⟨node, false⟩ := by
  have hread := h.read [] [] delimits_nil
  rw [List.append_nil] at hread
  rw [Document.read, hread, readOn]
  rfl

end MailRules.Json
