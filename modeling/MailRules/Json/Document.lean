import MailRules.Json.Token

/-!
# Documents

A document is read into a tree in one pass, before anyone asks for types. Reading never fails: the
tree ends where the text goes wrong, and the place keeps the trouble. A typed reader that visits
the tree in the order of the text then meets either its own mismatch or that trouble, whichever
comes first, as if it had read the text itself.

Values may nest without limit, so the brackets that are open are a list of frames and not calls.
The end of every open bracket around a broken place is marked with the same trouble; to skip a
value, however deep, is therefore to look at its outermost node.
-/

namespace MailRules.Json

open MailRules.Text

/-- How the list of an array or an object ends. -/
inductive Ending (α : Type)
  | closed
  /-- The text goes wrong inside the last element or after it. -/
  | cut (trouble : Trouble)
  /-- Where a key should stand there is something else. -/
  | notAKey (stray : α)

inductive Node
  /-- No value can start here. -/
  | missing (trouble : Trouble)
  | word (token : Token Word)
  | number (token : Token Number)
  | text (token : Token String)
  | array (items : List Node) (ending : Ending Node)
  | object (members : List (Token String × Node)) (ending : Ending Node)

abbrev Member := Token String × Node

instance : Inhabited Node := ⟨.missing .unfinished⟩

/-- A key can only be missing because the text ended or because something else stands there. -/
def Node.keyTrouble : Node → Trouble
  | .missing t => t
  | _ => .malformed

def Ending.check : Ending Node → Except Trouble Unit
  | .closed => .ok ()
  | .cut t => .error t
  | .notAKey stray => .error stray.keyTrouble

/-- What a reader finds that does not want the value. -/
def Node.skip : Node → Except Trouble Unit
  | .missing t => .error t
  | .word token => token.skipped
  | .number token => token.skipped
  | .text token => token.skipped
  | .array _ ending => ending.check
  | .object _ ending => ending.check

/-- A value, and whether the text goes on after it. -/
structure Document where
  root : Node
  trailing : Bool

/-- An open bracket, with what it holds so far, the last element first. -/
inductive Frame
  | array (items : List Node)
  | object (members : List Member) (key : Token String)

/-- The end of a bracket around a node that is broken. -/
def endingAround (node : Node) : Ending Node :=
  match node.skip with
  | .ok () => .closed
  | .error t => .cut t

/-- Ends all open brackets at a node that is broken. -/
def abandon : List Frame → Node → Node
  | [], node => node
  | .array items :: frames, node =>
    abandon frames (.array (node :: items).reverse (endingAround node))
  | .object members key :: frames, node =>
    abandon frames (.object ((key, node) :: members).reverse (endingAround node))

def broken (frames : List Frame) (node : Node) : Document := ⟨abandon frames node, false⟩

/-- The text ended, or something stands where it must not. -/
def troubleAt (s : List Glyph) : Trouble := if s.isEmpty then .unfinished else .malformed

/-- Reads a value without brackets. -/
def scalar? : List Glyph → Option (Node × List Glyph)
  | .char '"' :: s =>
    let (token, rest) := text s
    some (.text token, rest)
  | s =>
    match word? s with
    | some (token, rest) => some (.word token, rest)
    | none => (number? s).map fun (token, rest) ↦ (.number token, rest)

/-- What stands where a key should: a value without brackets, a bracket, or nothing. -/
def strayKey (s : List Glyph) : Node :=
  match s with
  | .char '[' :: _ => .array [] .closed
  | .char '{' :: _ => .object [] .closed
  | s =>
    match scalar? s with
    | some (node, _) => node
    | none => .missing (troubleAt s)

/-! ## Each step shortens the text -/

theorem length_skipBlank (s : List Glyph) : (skipBlank s).length ≤ s.length :=
  (List.dropWhile_sublist isBlank).length_le

theorem length_of_skipBlank {s rest : List Glyph} {g : Glyph} (h : skipBlank s = g :: rest) :
    rest.length < s.length := by
  have := length_skipBlank s
  simp only [h, List.length_cons] at this
  omega

theorem length_scalar? {s rest : List Glyph} {node : Node} (h : scalar? s = some (node, rest)) :
    rest.length < s.length := by
  unfold scalar? at h
  split at h
  · rename_i s
    have := length_textFrom (.ok {}) s
    simp only [Option.some.injEq, Prod.mk.injEq, text] at h
    obtain ⟨_, rfl⟩ := h
    simp only [List.length_cons]
    omega
  · split at h
    · rename_i hw
      simp only [Option.some.injEq, Prod.mk.injEq] at h
      obtain ⟨_, rfl⟩ := h
      exact length_word? hw
    · simp only [Option.map_eq_some_iff, Prod.exists, Prod.mk.injEq] at h
      obtain ⟨_, _, hn, _, rfl⟩ := h
      exact length_number? hn

/-! ## Reading -/

mutual

/-- Reads on where a value is expected. -/
def readValue (frames : List Frame) (s : List Glyph) : Document :=
  match h : skipBlank s with
  | .char '[' :: rest =>
    have := length_of_skipBlank h
    match h : skipBlank rest with
    | .char ']' :: rest =>
      have := length_of_skipBlank h
      readOn frames (.array [] .closed) rest
    | _ => readValue (.array [] :: frames) rest
  | .char '{' :: rest =>
    have := length_of_skipBlank h
    match h : skipBlank rest with
    | .char '}' :: rest =>
      have := length_of_skipBlank h
      readOn frames (.object [] .closed) rest
    | _ => readKey frames [] rest
  | _ =>
    match h : scalar? (skipBlank s) with
    | none => broken frames (.missing (troubleAt (skipBlank s)))
    | some (node, rest) =>
      have := length_scalar? h
      match node.skip with
      | .error _ => broken frames node
      | .ok () => readOn frames node rest
termination_by s.length
decreasing_by
  all_goals
    have := length_skipBlank s
    omega

/-- Reads on where a key is expected. -/
def readKey (frames : List Frame) (members : List Member) (s : List Glyph) : Document :=
  match h : skipBlank s with
  | .char '"' :: rest =>
    have := length_of_skipBlank h
    have := length_textFrom (.ok {}) rest
    match _h : text rest with
    | (key, rest) =>
      match key.skipped with
      | .error t => broken (.object members key :: frames) (.missing t)
      | .ok () =>
        match h : skipBlank rest with
        | .char ':' :: rest =>
          have := length_of_skipBlank h
          readValue (.object members key :: frames) rest
        | rest => broken (.object members key :: frames) (.missing (troubleAt rest))
  | rest => broken frames (.object members.reverse (.notAKey (strayKey rest)))
termination_by s.length
decreasing_by simp_all [text]; omega

/-- Reads on after a value. -/
def readOn (frames : List Frame) (node : Node) (s : List Glyph) : Document :=
  match frames with
  | [] => ⟨node, !(skipBlank s).isEmpty⟩
  | .array items :: frames =>
    match h : skipBlank s with
    | .char ',' :: rest =>
      have := length_of_skipBlank h
      readValue (.array (node :: items) :: frames) rest
    | .char ']' :: rest =>
      have := length_of_skipBlank h
      readOn frames (.array (node :: items).reverse .closed) rest
    | rest => broken frames (.array (node :: items).reverse (.cut (troubleAt rest)))
  | .object members key :: frames =>
    match h : skipBlank s with
    | .char ',' :: rest =>
      have := length_of_skipBlank h
      readKey frames ((key, node) :: members) rest
    | .char '}' :: rest =>
      have := length_of_skipBlank h
      readOn frames (.object ((key, node) :: members).reverse .closed) rest
    | rest => broken frames (.object ((key, node) :: members).reverse (.cut (troubleAt rest)))
termination_by s.length
decreasing_by all_goals omega

end

def Document.read (s : List Glyph) : Document := readValue [] s

end MailRules.Json
