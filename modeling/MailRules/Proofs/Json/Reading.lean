import Mathlib
import MailRules.Proofs.Json.Numeral

/-!
# Documents are read by the grammar

The reader of documents and the grammar of JSON agree. Every text of a tree is read as a node of
that tree with nothing after it (`Writes.exists_read`), and a text that is read without trouble is a
text of a tree (`exists_writes_of_read`).

A node is one of a tree if the two have the same shape, every text of the node has the value that
the tree's text means, and every number is the one that is written (`Shows`). Whether a number fits
is for those who want it.

## From the reader to the grammar

Trouble is never lost: where the reader breaks off, all brackets that are open around the place
end with the trouble that was met there (`skip_abandon`). So a document whose root has none was read
to its end, and every step of the reader was one of the few that go on (`ValueStep`, `KeyStep`,
`NextStep`). From there the text is taken apart by induction on its length: after a value the reader
goes on as it would after anything else with that node, and after what stands between brackets as
after the array or the object.
-/

namespace MailRules.Json

open MailRules.Text

/-! ## Nodes of trees -/

/-- The node is one of the tree. -/
inductive Shows : Node → Tree → Prop
  | word (w : Word) : Shows (.word (.good w)) (.word w)
  | number {token : Token Number} {s : List Char} (same : ShowsNumber token s) :
      Shows (.number token) (.number s)
  | text {token : Token String} {s : List Char} (same : ShowsText token s) :
      Shows (.text token) (.text s)
  | array {nodes : List Node} {ts : List Tree} (items : List.Forall₂ Shows nodes ts) :
      Shows (.array nodes .closed) (.array ts)
  | object {ms : List Member} {ts : List (List Char × Tree)}
      (keys : List.Forall₂ ShowsText (ms.map Prod.fst) (ts.map Prod.fst))
      (values : List.Forall₂ Shows (ms.map Prod.snd) (ts.map Prod.snd)) :
      Shows (.object ms .closed) (.object ts)

theorem Shows.skip {node : Node} {t : Tree} (h : Shows node t) : node.skip = .ok () := by
  cases h with
  | word w => rfl
  | number same => exact same.good
  | text same => exact same.good
  | array items => rfl
  | object keys values => rfl

/-! ## From the grammar to the reader -/

section Complete

variable {s w : List Char}

theorem isBlank_char_iff {c : Char} :
    isBlank (.char c) = true ↔ c = ' ' ∨ c = '\t' ∨ c = '\n' ∨ c = '\r' := by
  simp [isBlank, or_assoc]

theorem blank_glyphs_iff : Blank (glyphs w) ↔ Blanks w := by
  simp [Blank, Blanks, glyphs, isBlank_char_iff]

theorem exists_spells_items {items : List (List Char × Tree)} (hne : items ≠ [])
    (h : ∀ i ∈ items, ∃ node, Shows node i.2 ∧ Spells (glyphs i.1) (.value node)) :
    ∃ nodes, List.Forall₂ Shows nodes (items.map Prod.snd) ∧
      Spells (glyphs ([','].intercalate (items.map Prod.fst))) (.items nodes) := by
  induction items with
  | nil => exact absurd rfl hne
  | cons i items ih =>
    obtain ⟨⟨node, hshows, hspells⟩, hrest⟩ := List.forall_mem_cons.mp h
    cases items with
    | nil =>
      refine ⟨[node], .cons hshows .nil, ?_⟩
      rw [List.map_singleton, List.intercalate_singleton]
      exact .item hspells
    | cons j items =>
      obtain ⟨nodes, hall, hitems⟩ := ih (List.cons_ne_nil _ _) hrest
      refine ⟨node :: nodes, .cons hshows hall, ?_⟩
      rw [List.map_cons, List.map_cons, List.intercalate_cons_cons, List.append_assoc,
        glyphs_append]
      exact .items hspells hitems

theorem Entry.spells {e : Entry} (he : e.Keyed) {node : Node}
    (h : Spells (glyphs e.value) (.value node)) :
    ∃ token, ShowsText token e.key ∧ Spells (glyphs e.text) (.member (token, node)) := by
  obtain ⟨token, hshows, hread⟩ := exists_text_of_quotable he.key
  refine ⟨token, hshows, ?_⟩
  have hname (rest : List Glyph) :
      Json.text (glyphs e.key ++ [.char '"'] ++ rest) = (token, rest) := by
    rw [List.append_assoc]
    exact hread rest
  have hentry := Spells.entry (blank_glyphs_iff.mpr he.before) hname hshows.good
    (blank_glyphs_iff.mpr he.after) h
  simpa [Entry.text, quoted, glyphs_append, glyphs_cons] using hentry

theorem exists_spells_members {members : List (Entry × Tree)} (hne : members ≠ [])
    (hkeys : ∀ m ∈ members, m.1.Keyed)
    (h : ∀ m ∈ members, ∃ node, Shows node m.2 ∧ Spells (glyphs m.1.value) (.value node)) :
    ∃ ms : List Member, List.Forall₂ ShowsText (ms.map Prod.fst) (members.map (·.1.key)) ∧
      List.Forall₂ Shows (ms.map Prod.snd) (members.map Prod.snd) ∧
      Spells (glyphs ([','].intercalate (members.map fun m ↦ m.1.text))) (.members ms) := by
  induction members with
  | nil => exact absurd rfl hne
  | cons m members ih =>
    obtain ⟨hkey, hkeys⟩ := List.forall_mem_cons.mp hkeys
    obtain ⟨⟨node, hshows, hspells⟩, hrest⟩ := List.forall_mem_cons.mp h
    obtain ⟨token, htoken, hmember⟩ := Entry.spells hkey hspells
    cases members with
    | nil =>
      refine ⟨[(token, node)], .cons htoken .nil, .cons hshows .nil, ?_⟩
      rw [List.map_singleton, List.intercalate_singleton]
      exact .member hmember
    | cons m' members =>
      obtain ⟨ms, hall, hall', hmembers⟩ := ih (List.cons_ne_nil _ _) hkeys hrest
      refine ⟨(token, node) :: ms, .cons htoken hall, .cons hshows hall', ?_⟩
      rw [List.map_cons, List.map_cons, List.intercalate_cons_cons, List.append_assoc,
        glyphs_append]
      exact .members hmember hmembers

theorem Writes.exists_spells {t : Tree} (h : Writes s t) :
    ∃ node, Shows node t ∧ Spells (glyphs s) (.value node) := by
  induction h with
  | blanks before value after ih =>
    obtain ⟨node, hshows, hspells⟩ := ih
    refine ⟨node, hshows, ?_⟩
    rw [glyphs_append, glyphs_append]
    exact .blanks (blank_glyphs_iff.mpr before) hspells (blank_glyphs_iff.mpr after)
  | word w =>
    refine ⟨_, .word w, .scalar (fun rest _ ↦ ?_) rfl⟩
    cases w <;> rfl
  | number numeral =>
    obtain ⟨token, hshows, hread⟩ := exists_number?_of_numeral numeral
    exact ⟨_, .number hshows,
      .scalar (fun rest hrest ↦ scalar?_of_number? (hread rest hrest)) hshows.good⟩
  | @text s inside =>
    obtain ⟨token, hshows, hread⟩ := exists_text_of_quotable inside
    refine ⟨_, .text hshows, .scalar (fun rest _ ↦ ?_) hshows.good⟩
    rw [quoted, glyphs_cons, glyphs_append, List.cons_append, List.append_assoc, scalar?]
    exact congrArg (fun r ↦ some (Node.text r.1, r.2)) (hread rest)
  | emptyArray between =>
    refine ⟨_, .array .nil, ?_⟩
    rw [List.cons_append, glyphs_cons, glyphs_append]
    exact .emptyArray (blank_glyphs_iff.mpr between)
  | array nonempty each ih =>
    obtain ⟨nodes, hshows, hspells⟩ := exists_spells_items nonempty ih
    refine ⟨_, .array hshows, ?_⟩
    rw [List.cons_append, glyphs_cons, glyphs_append]
    exact .array hspells
  | emptyObject between =>
    refine ⟨.object [] .closed, .object .nil .nil, ?_⟩
    rw [List.cons_append, glyphs_cons, glyphs_append]
    exact .emptyObject (blank_glyphs_iff.mpr between)
  | object nonempty keys each ih =>
    obtain ⟨ms, hkeys, hvalues, hspells⟩ := exists_spells_members nonempty keys ih
    refine ⟨.object ms .closed, .object ?_ ?_, ?_⟩
    · rwa [List.map_map]
    · rwa [List.map_map]
    · rw [List.cons_append, glyphs_cons, glyphs_append]
      exact .object hspells

/-- **A text of a tree is read as a node of it**, and nothing comes after it. -/
theorem Writes.exists_read {t : Tree} (h : Writes s t) :
    ∃ node, Shows node t ∧ Document.read (glyphs s) = ⟨node, false⟩ := by
  obtain ⟨node, hshows, hspells⟩ := h.exists_spells
  exact ⟨node, hshows, Document.read_of_spells hspells⟩

end Complete

/-! ## From the reader to the grammar -/

/-- Nothing went wrong on the way. -/
def Document.Good (d : Document) : Prop := d.root.skip = .ok ()

section Trouble

variable {frames : List Frame} {node : Node} {t : Trouble}

/-- **Trouble is never lost**: all brackets around it end with it. -/
theorem skip_abandon (h : node.skip = .error t) : (abandon frames node).skip = .error t := by
  induction frames generalizing node with
  | nil => exact h
  | cons frame frames ih =>
    have hend : (endingAround node).check = .error t := by
      rw [endingAround, h]
      rfl
    cases frame <;> exact ih hend

theorem not_good_broken (h : node.skip = .error t) : ¬(broken frames node).Good := by
  rw [Document.Good, broken, skip_abandon h]
  simp

end Trouble

/-! ### Steps that go on -/

section Steps

variable {s t rest : List Char} {frames : List Frame} {node : Node}

theorem exists_skipBlank (s : List Char) :
    ∃ w t, s = w ++ t ∧ Blanks w ∧ skipBlank (glyphs s) = glyphs t := by
  induction s with
  | nil => exact ⟨[], [], rfl, blanks_nil, rfl⟩
  | cons c s ih =>
    by_cases hc : isBlank (.char c) = true
    · obtain ⟨w, t, rfl, hw, ht⟩ := ih
      refine ⟨c :: w, t, rfl, List.forall_mem_cons.mpr ⟨isBlank_char_iff.mp hc, hw⟩, ?_⟩
      rw [← ht, glyphs_cons, skipBlank, List.dropWhile_cons_of_pos hc, skipBlank]
    · exact ⟨[], c :: s, rfl, blanks_nil, skipBlank_cons (by simpa using hc)⟩

/-- The reader went on after a text of a tree. -/
inductive AfterValue (frames : List Frame) : List Char → Document → Prop
  | mk {u rest : List Char} {t : Tree} {node : Node} (nonempty : u ≠ []) (writes : Writes u t)
      (same : Shows node t) : AfterValue frames (u ++ rest) (readOn frames node (glyphs rest))

/-- The reader went on after texts of trees up to a bracket. -/
inductive AfterItems (frames : List Frame) (items : List Node) : List Char → Document → Prop
  | mk {parts : List (List Char × Tree)} {nodes : List Node} {rest : List Char}
      (nonempty : parts ≠ []) (writes : ∀ i ∈ parts, Writes i.1 i.2)
      (same : List.Forall₂ Shows nodes (parts.map Prod.snd)) :
      AfterItems frames items ([','].intercalate (parts.map Prod.fst) ++ ']' :: rest)
        (readOn frames (.array (items.reverse ++ nodes) .closed) (glyphs rest))

/-- The reader went on after entries up to a bracket. -/
inductive AfterMembers (frames : List Frame) (members : List Member) :
    List Char → Document → Prop
  | mk {parts : List (Entry × Tree)} {ms : List Member} {rest : List Char} (nonempty : parts ≠ [])
      (keyed : ∀ m ∈ parts, m.1.Keyed) (writes : ∀ m ∈ parts, Writes m.1.value m.2)
      (keys : List.Forall₂ ShowsText (ms.map Prod.fst) (parts.map (·.1.key)))
      (values : List.Forall₂ Shows (ms.map Prod.snd) (parts.map Prod.snd)) :
      AfterMembers frames members ([','].intercalate (parts.map fun m ↦ m.1.text) ++ '}' :: rest)
        (readOn frames (.object (members.reverse ++ ms) .closed) (glyphs rest))

/-- What the reader comes to where a value is expected. -/
inductive ValueStep (frames : List Frame) : List Char → Document → Prop
  | whole {s : List Char} {d : Document} (after : AfterValue frames s d) : ValueStep frames s d
  | array {w s : List Char} (before : Blanks w) :
      ValueStep frames (w ++ '[' :: s) (readValue (.array [] :: frames) (glyphs s))
  | object {w s : List Char} (before : Blanks w) :
      ValueStep frames (w ++ '{' :: s) (readKey frames [] (glyphs s))

/-- What is read between quotes is read up to the last of them. -/
theorem exists_of_text (h : (Json.text (glyphs s)).1.skipped = .ok ()) :
    ∃ k t token, s = k ++ '"' :: t ∧ Quotable k ∧ ShowsText token k ∧
      Json.text (glyphs s) = (token, glyphs t) := by
  obtain ⟨k, t, rfl, hk⟩ := exists_quotable_of_text h
  obtain ⟨token, hshows, hread⟩ := exists_text_of_quotable hk
  refine ⟨k, t, token, rfl, hk, hshows, ?_⟩
  rw [glyphs_append]
  exact hread _

theorem exists_of_scalar? {rest : List Glyph} (h : scalar? (glyphs s) = some (node, rest))
    (hgood : node.skip = .ok ()) :
    ∃ u v t, s = u ++ v ∧ u ≠ [] ∧ Writes u t ∧ Shows node t ∧ glyphs v = rest := by
  unfold scalar? at h
  split at h
  case h_1 hs =>
    obtain ⟨t, rfl, rfl⟩ := exists_of_glyphs_cons hs
    obtain ⟨rfl, rfl⟩ := Prod.mk.inj (Option.some.inj h)
    obtain ⟨k, t, token, rfl, hk, hshows, hread⟩ := exists_of_text hgood
    rw [Json.text] at hread
    rw [hread]
    exact ⟨quoted k, t, .text k, by simp [quoted], by simp [quoted], .text hk, .text hshows, rfl⟩
  case h_2 =>
    split at h
    · rename_i hword
      obtain ⟨rfl, rfl⟩ := Prod.mk.inj (Option.some.inj h)
      obtain ⟨w, t, rfl, rfl, rfl⟩ := exists_of_word? hword hgood
      exact ⟨w.letters, t, .word w, rfl, by cases w <;> simp [Word.letters], .word w, .word w, rfl⟩
    · obtain ⟨⟨token, rest⟩, hnumber, heq⟩ := Option.map_eq_some_iff.mp h
      obtain ⟨rfl, rfl⟩ := Prod.mk.inj heq
      obtain ⟨u, t, rfl, hu, hshows, rfl⟩ := exists_of_number? hnumber hgood
      exact ⟨u, t, .number u, rfl, hu.ne_nil, .number hu, .number hshows, rfl⟩

theorem valueStep (h : (readValue frames (glyphs s)).Good) :
    ValueStep frames s (readValue frames (glyphs s)) := by
  obtain ⟨w, t, rfl, hw, ht⟩ := exists_skipBlank s
  revert h
  rw [readValue]
  dsimp only
  rw [ht]
  split
  case h_1 hs =>
    obtain ⟨v, rfl, rfl⟩ := exists_of_glyphs_cons hs
    obtain ⟨w', u, rfl, hw', hu⟩ := exists_skipBlank v
    rw [hu]
    split
    · rename_i hs
      obtain ⟨rest, rfl, rfl⟩ := exists_of_glyphs_cons hs
      intro h
      have hafter : AfterValue frames _ (readOn frames (.array [] .closed) (glyphs rest)) :=
        .mk (by simp) (.blanks hw (.emptyArray hw') blanks_nil) (.array .nil)
      simpa using ValueStep.whole hafter
    · exact fun _ ↦ .array hw
  case h_2 hs =>
    obtain ⟨v, rfl, rfl⟩ := exists_of_glyphs_cons hs
    obtain ⟨w', u, rfl, hw', hu⟩ := exists_skipBlank v
    rw [hu]
    split
    · rename_i hs
      obtain ⟨rest, rfl, rfl⟩ := exists_of_glyphs_cons hs
      intro h
      have hafter : AfterValue frames _ (readOn frames (.object [] .closed) (glyphs rest)) :=
        .mk (by simp) (.blanks hw (.emptyObject hw') blanks_nil) (.object .nil .nil)
      simpa using ValueStep.whole hafter
    · exact fun _ ↦ .object hw
  case h_3 =>
    split
    · exact fun h ↦ absurd h (not_good_broken rfl)
    · rename_i node rest hscalar
      split
      · rename_i hbad
        exact fun h ↦ absurd h (not_good_broken hbad)
      · rename_i hgood
        obtain ⟨u, v, t, rfl, hne, hwrites, hshows, rfl⟩ := exists_of_scalar? hscalar hgood
        intro h
        have hafter : AfterValue frames _ (readOn frames node (glyphs v)) :=
          .mk (by simp [hne]) (.blanks hw hwrites blanks_nil) hshows
        simpa using ValueStep.whole hafter

/-- What the reader comes to where a key is expected. -/
inductive KeyStep (frames : List Frame) (members : List Member) : List Char → Document → Prop
  | mk {w k w' s : List Char} {token : Token String} (before : Blanks w) (key : Quotable k)
      (same : ShowsText token k) (after : Blanks w') :
      KeyStep frames members (w ++ quoted k ++ w' ++ ':' :: s)
        (readValue (.object members token :: frames) (glyphs s))

theorem keyStep {members : List Member} (h : (readKey frames members (glyphs s)).Good) :
    KeyStep frames members s (readKey frames members (glyphs s)) := by
  obtain ⟨w, t, rfl, hw, ht⟩ := exists_skipBlank s
  revert h
  rw [readKey]
  dsimp only
  rw [ht]
  split
  case h_1 hs =>
    obtain ⟨v, rfl, rfl⟩ := exists_of_glyphs_cons hs
    split
    · rename_i hbad
      exact fun h ↦ absurd h (not_good_broken rfl)
    · rename_i hgood
      obtain ⟨k, t, token, rfl, hk, hshows, hread⟩ := exists_of_text hgood
      rw [hread]
      obtain ⟨w', u, rfl, hw', hu⟩ := exists_skipBlank t
      rw [hu]
      split
      · rename_i hs
        obtain ⟨rest, rfl, rfl⟩ := exists_of_glyphs_cons hs
        intro h
        have hstep : KeyStep frames members _
            (readValue (.object members token :: frames) (glyphs rest)) :=
          .mk hw hk hshows hw'
        simpa [quoted] using hstep
      · exact fun h ↦ absurd h (not_good_broken rfl)
  case h_2 =>
    exact fun h ↦ absurd h (not_good_broken rfl)

/-- What the reader comes to after an element or a member: a comma, and then there is more to read,
or the bracket. -/
inductive NextStep (bracket : Char) (more close : List Glyph → Document) :
    List Char → Document → Prop
  | more {w s : List Char} (before : Blanks w) :
      NextStep bracket more close (w ++ ',' :: s) (more (glyphs s))
  | close {w s : List Char} (before : Blanks w) :
      NextStep bracket more close (w ++ bracket :: s) (close (glyphs s))

theorem itemStep {items : List Node}
    (h : (readOn (.array items :: frames) node (glyphs s)).Good) :
    NextStep ']' (readValue (.array (node :: items) :: frames))
      (readOn frames (.array (node :: items).reverse .closed)) s
      (readOn (.array items :: frames) node (glyphs s)) := by
  obtain ⟨w, t, rfl, hw, ht⟩ := exists_skipBlank s
  revert h
  rw [readOn]
  dsimp only
  rw [ht]
  split
  case h_1 hs =>
    obtain ⟨v, rfl, rfl⟩ := exists_of_glyphs_cons hs
    exact fun _ ↦ .more hw
  case h_2 hs =>
    obtain ⟨v, rfl, rfl⟩ := exists_of_glyphs_cons hs
    exact fun _ ↦ .close hw
  case h_3 => exact fun h ↦ absurd h (not_good_broken rfl)

theorem memberStep {members : List Member} {key : Token String}
    (h : (readOn (.object members key :: frames) node (glyphs s)).Good) :
    NextStep '}' (readKey frames ((key, node) :: members))
      (readOn frames (.object ((key, node) :: members).reverse .closed)) s
      (readOn (.object members key :: frames) node (glyphs s)) := by
  obtain ⟨w, t, rfl, hw, ht⟩ := exists_skipBlank s
  revert h
  rw [readOn]
  dsimp only
  rw [ht]
  split
  case h_1 hs =>
    obtain ⟨v, rfl, rfl⟩ := exists_of_glyphs_cons hs
    exact fun _ ↦ .more hw
  case h_2 hs =>
    obtain ⟨v, rfl, rfl⟩ := exists_of_glyphs_cons hs
    exact fun _ ↦ .close hw
  case h_3 => exact fun h ↦ absurd h (not_good_broken rfl)

end Steps

/-! ### Texts taken apart -/

/-- What is read of the text without trouble is taken apart as the grammar has it. -/
structure TakenApart (s : List Char) : Prop where
  value : ∀ frames, (readValue frames (glyphs s)).Good →
    AfterValue frames s (readValue frames (glyphs s))
  items : ∀ frames items, (readValue (.array items :: frames) (glyphs s)).Good →
    AfterItems frames items s (readValue (.array items :: frames) (glyphs s))
  members : ∀ frames members, (readKey frames members (glyphs s)).Good →
    AfterMembers frames members s (readKey frames members (glyphs s))

section Apart

variable {s : List Char} {frames : List Frame}

theorem afterValue (ih : ∀ v : List Char, v.length < s.length → TakenApart v)
    (h : (readValue frames (glyphs s)).Good) :
    AfterValue frames s (readValue frames (glyphs s)) := by
  generalize hd : readValue frames (glyphs s) = d at h
  have hstep : ValueStep frames s d := hd ▸ valueStep (hd ▸ h)
  cases hstep with
  | whole after => exact after
  | @array w v before =>
    have hitems := (ih v (by simp; omega)).items _ _ h
    generalize readValue (.array [] :: frames) (glyphs v) = d at hitems
    obtain @⟨parts, nodes, rest, nonempty, writes, same⟩ := hitems
    have hafter : AfterValue frames _ (readOn frames (.array nodes .closed) (glyphs rest)) :=
      .mk (by simp) (.blanks before (.array nonempty writes) blanks_nil) (.array same)
    simpa using hafter
  | @object w v before =>
    have hmembers := (ih v (by simp; omega)).members _ _ h
    generalize readKey frames [] (glyphs v) = d at hmembers
    obtain @⟨parts, ms, rest, nonempty, keyed, writes, keys, values⟩ := hmembers
    have hafter : AfterValue frames _ (readOn frames (.object ms .closed) (glyphs rest)) :=
      .mk (by simp) (.blanks before (.object nonempty keyed writes) blanks_nil)
        (.object (by rwa [List.map_map]) (by rwa [List.map_map]))
    simpa using hafter

theorem afterItems {items : List Node} (ih : ∀ v : List Char, v.length < s.length → TakenApart v)
    (h : (readValue (.array items :: frames) (glyphs s)).Good) :
    AfterItems frames items s (readValue (.array items :: frames) (glyphs s)) := by
  have hvalue := afterValue ih h
  generalize readValue (.array items :: frames) (glyphs s) = d at h hvalue
  obtain @⟨u, v, t, node, nonempty, writes, same⟩ := hvalue
  have hstep := itemStep h
  generalize readOn (.array items :: frames) node (glyphs v) = d at h hstep
  cases hstep with
  | @close w rest before =>
    have hwrites : ∀ i ∈ [(u ++ w, t)], Writes i.1 i.2 := by
      simpa using .blanks blanks_nil writes before
    have hafter : AfterItems frames items _
        (readOn frames (.array (items.reverse ++ [node]) .closed) (glyphs rest)) :=
      .mk (by simp) hwrites (.cons same .nil)
    simpa using hafter
  | @more w v before =>
    have hitems := (ih v (by simp; omega)).items _ _ h
    generalize readValue (.array (node :: items) :: frames) (glyphs v) = d at hitems
    obtain @⟨parts, nodes, rest, nonempty', writes', same'⟩ := hitems
    have hwrites : ∀ i ∈ (u ++ w, t) :: parts, Writes i.1 i.2 :=
      List.forall_mem_cons.mpr ⟨.blanks blanks_nil writes before, writes'⟩
    have hafter : AfterItems frames items _
        (readOn frames (.array (items.reverse ++ node :: nodes) .closed) (glyphs rest)) :=
      .mk (by simp) hwrites (.cons same same')
    rw [List.map_cons, List.intercalate_cons_of_ne_nil (by simpa using nonempty')] at hafter
    simpa using hafter

theorem afterMembers {members : List Member}
    (ih : ∀ v : List Char, v.length < s.length → TakenApart v)
    (h : (readKey frames members (glyphs s)).Good) :
    AfterMembers frames members s (readKey frames members (glyphs s)) := by
  -- the document stays the same throughout; only the text in front of it is taken off
  have hkey := keyStep h
  generalize readKey frames members (glyphs s) = d at h hkey
  obtain @⟨b, k, a, v, token, before, key, shows, after⟩ := hkey
  have hvalue := (ih v (by simp; omega)).value _ h
  generalize readValue (.object members token :: frames) (glyphs v) = d at h hvalue
  obtain @⟨u, v, t, node, nonempty, writes, same⟩ := hvalue
  have hstep := memberStep h
  generalize readOn (.object members token :: frames) node (glyphs v) = d at h hstep
  cases hstep with
  | @close w rest blanks =>
    have hkeyed : ∀ m ∈ [((⟨b, k, a, u ++ w⟩ : Entry), t)], m.1.Keyed := by
      simpa using ⟨before, key, after⟩
    have hwrites : ∀ m ∈ [((⟨b, k, a, u ++ w⟩ : Entry), t)], Writes m.1.value m.2 := by
      simpa using .blanks blanks_nil writes blanks
    have hafter : AfterMembers frames members _
        (readOn frames (.object (members.reverse ++ [(token, node)]) .closed) (glyphs rest)) :=
      .mk (by simp) hkeyed hwrites (.cons shows .nil) (.cons same .nil)
    simpa [Entry.text] using hafter
  | @more w v blanks =>
    have hmembers := (ih v (by simp; omega)).members _ _ h
    generalize readKey frames ((token, node) :: members) (glyphs v) = d at hmembers
    obtain @⟨parts, ms, rest, nonempty', keyed, writes', keys, values⟩ := hmembers
    have hkeyed : ∀ m ∈ (⟨b, k, a, u ++ w⟩, t) :: parts, m.1.Keyed :=
      List.forall_mem_cons.mpr ⟨⟨before, key, after⟩, keyed⟩
    have hwrites : ∀ m ∈ (⟨b, k, a, u ++ w⟩, t) :: parts, Writes m.1.value m.2 :=
      List.forall_mem_cons.mpr ⟨.blanks blanks_nil writes blanks, writes'⟩
    have hafter : AfterMembers frames members _
        (readOn frames (.object (members.reverse ++ (token, node) :: ms) .closed) (glyphs rest)) :=
      .mk (by simp) hkeyed hwrites (.cons shows keys) (.cons same values)
    rw [List.map_cons, List.intercalate_cons_of_ne_nil (by simpa using nonempty')] at hafter
    simpa [Entry.text] using hafter

end Apart

theorem takenApart (s : List Char) : TakenApart s := by
  -- all three at once: each of the functions of the reader goes on with another of them
  induction hn : s.length using Nat.strong_induction_on generalizing s with
  | _ n ih =>
    have hshorter (v : List Char) (hv : v.length < s.length) : TakenApart v :=
      ih v.length (hn ▸ hv) v rfl
    exact ⟨fun _ ↦ afterValue hshorter, fun _ _ ↦ afterItems hshorter,
      fun _ _ ↦ afterMembers hshorter⟩

/-- **What is read to the end without trouble is a text of a tree.** -/
theorem exists_writes_of_read {s : List Char} (h : (Document.read (glyphs s)).Good)
    (hend : (Document.read (glyphs s)).trailing = false) :
    ∃ t, Writes s t ∧ Shows (Document.read (glyphs s)).root t := by
  have hafter := (takenApart s).value [] h
  rw [← Document.read] at hafter
  generalize Document.read (glyphs s) = d at h hend hafter
  obtain @⟨u, rest, t, node, nonempty, writes, same⟩ := hafter
  obtain ⟨w, v, rfl, hw, hv⟩ := exists_skipBlank rest
  rw [readOn, hv] at hend ⊢
  have hnil : v = [] := by simpa [glyphs] using hend
  subst hnil
  refine ⟨t, ?_, same⟩
  simpa using Writes.blanks blanks_nil writes hw

end MailRules.Json
