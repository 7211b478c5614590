import MailRules.Json.Document
import MailRules.Json.Value

/-!
# Typed reading and writing

A codec reads a type from a node and writes it as a value. Texts, numbers, options, lists and names
have codecs of their own; records are put together from fields.

A record is read from an object in one walk over its members: a known key may come once, an unknown
one is skipped, and what is missing shows when the object ends. The walk fills a row of slots, one
for each field, whose type grows with the row; so the record's constructor gets all its arguments
or none. A record may also be written as the bare list of its fields in order.
-/

namespace MailRules.Json

structure Codec (α : Type) where
  read : Node → Except Trouble α
  write : α → Value

/-- What is wrong with a node for a reader that wants another type. A bracket is a mismatch as it
opens, a value without brackets only once it is read. -/
def Node.unwanted : Node → Trouble
  | .missing t => t
  | .word token => match token.kept with | .ok _ => .mismatch | .error t => t
  | .number token => match token.kept with | .ok _ => .mismatch | .error t => t
  | .text token => match token.kept with | .ok _ => .mismatch | .error t => t
  | .array _ _ => .mismatch
  | .object _ _ => .mismatch

namespace Codec

def text : Codec String where
  read
    | .text token => token.kept
    | node => .error node.unwanted
  write := .text

/-- An integer of 64 bits without a sign. -/
def natural : Codec Nat where
  read
    | .number token => do
      match ← token.kept with
      | .natural n => pure n
      | _ => .error .mismatch
    | node => .error node.unwanted
  write n := .number n

/-- An integer of 64 bits with a sign. -/
def integer : Codec Int where
  read
    | .number token => do
      match ← token.kept with
      | .natural n => if n < Nat.pow 2 63 then pure n else .error .mismatch
      | .negative n => pure (-n)
      | .scaled .. => .error .mismatch
    | node => .error node.unwanted
  write := .number

def option {α : Type} (codec : Codec α) : Codec (Option α) where
  read
    | .word ⟨.ok .null, _⟩ => .ok none
    | node => some <$> codec.read node
  write
    | none => .null
    | some x => codec.write x

/-- Reads the items of an array in turn. -/
def readItems {α : Type} (codec : Codec α) : List Node → Except Trouble (List α)
  | [] => .ok []
  | node :: nodes => do
    let x ← codec.read node
    let xs ← readItems codec nodes
    pure (x :: xs)

def list {α : Type} (codec : Codec α) : Codec (List α) where
  read
    | .array items ending => do
      let xs ← readItems codec items
      ending.check
      pure xs
    | node => .error node.unwanted
  write xs := .array (xs.map codec.write)

/-- One of a few names, as a text or as the only key of an object, with a null under it. -/
def name {α : Type} (named : String → Option α) (written : α → String) : Codec α :=
  let find (key : Token String) : Except Trouble α := do
    match named (← key.kept) with
    | some x => pure x
    | none => .error .mismatch
  { read
      | .text token => find token
      | .missing t => .error t
      | .object [] (.notAKey stray) => .error stray.unwanted
      | .object ((key, value) :: more) ending => do
        let x ← find key
        match value with
        | .word ⟨.ok .null, _⟩ => pure ()
        | value => .error value.unwanted
        match more, ending with
        | [], .closed => pure x
        | [], .cut t => .error t
        | _, _ => .error .malformed
      | _ => .error .malformed
    write x := .text (written x) }

/-- A type with the codec of another, for values that have a meaning there. -/
def via {α β : Type} (codec : Codec α) (decode : α → Option β) (encode : β → α) : Codec β where
  read node := do
    match decode (← codec.read node) with
    | some x => pure x
    | none => .error .mismatch
  write x := codec.write (encode x)

end Codec

/-! ## Records -/

structure Field (α : Type) where
  key : String
  codec : Codec α
  /-- The value of a field whose key is not there. -/
  absent : Option α := none
  /-- The value of a field that the bare list of a record ends before. -/
  beyond : Option α := none
  /-- The values that are not written. -/
  hidden : α → Bool := fun _ ↦ false

namespace Field

def required {α : Type} (key : String) (codec : Codec α) : Field α := { key, codec }

/-- A field that may be missing or null. -/
def optional {α : Type} (key : String) (codec : Codec α) : Field (Option α) :=
  { key, codec := codec.option, absent := some none }

/-- A field with a value for when it is missing. -/
def defaulted {α : Type} (key : String) (codec : Codec α) (x : α) : Field α :=
  { key, codec, absent := some x, beyond := some x }

end Field

/-- The fields of a record: `σ` holds a slot for each, `ρ` a value for each. -/
structure Row (σ ρ : Type) where
  empty : σ
  /-- Fills the slot of a key; none if the row has no such key. -/
  put : String → Node → σ → Option (Except Trouble σ)
  /-- The values, once all members are seen. -/
  finish : σ → Except Trouble ρ
  /-- The values of a bare list of fields. -/
  items : List Node → Ending Node → Except Trouble ρ
  write : ρ → List (String × Value)

namespace Row

def nil : Row Unit Unit where
  empty := ()
  put _ _ _ := none
  finish _ := .ok ()
  items nodes ending := if nodes.isEmpty then ending.check else .error .malformed
  write _ := []

def orMismatch {α : Type} : Option α → Except Trouble α
  | some x => .ok x
  | none => .error .mismatch

def cons {α σ ρ : Type} (field : Field α) (row : Row σ ρ) : Row (Option α × σ) (α × ρ) where
  empty := (none, row.empty)
  put key node slots :=
    if key = field.key then
      some (match slots.1 with
        | some _ => .error .mismatch
        | none => (fun x ↦ (some x, slots.2)) <$> field.codec.read node)
    else (row.put key node slots.2).map fun r ↦ (fun rest ↦ (slots.1, rest)) <$> r
  finish slots := do
    let x ← orMismatch (slots.1 <|> field.absent)
    let rest ← row.finish slots.2
    pure (x, rest)
  items nodes ending :=
    match nodes with
    | node :: nodes => do
      let x ← field.codec.read node
      let rest ← row.items nodes ending
      pure (x, rest)
    | [] => do
      ending.check
      let x ← orMismatch field.beyond
      let rest ← row.items [] ending
      pure (x, rest)
  write values :=
    let rest := row.write values.2
    if field.hidden values.1 then rest
    else (field.key, field.codec.write values.1) :: rest

/-- Walks the members of an object in turn. -/
def fill {σ ρ : Type} (row : Row σ ρ) : σ → List Member → Except Trouble σ
  | slots, [] => .ok slots
  | slots, (key, node) :: members => do
    let key ← key.kept
    match row.put key node slots with
    | some filled => row.fill (← filled) members
    | none =>
      node.skip
      row.fill slots members

def read {σ ρ : Type} (row : Row σ ρ) : Node → Except Trouble ρ
  | .object members ending => do
    let slots ← row.fill row.empty members
    ending.check
    row.finish slots
  | .array items ending => row.items items ending
  | node => .error node.unwanted

end Row

/-- The codec of a type whose values are made of the fields of a row. -/
def Codec.record {σ ρ α : Type} (row : Row σ ρ) (make : ρ → α) (fields : α → ρ) : Codec α where
  read node := make <$> row.read node
  write x := .object (row.write (fields x))

/-! ## Whole texts -/

namespace Codec

/-- Reads a document; nothing may follow the value. -/
def readDocument {α : Type} (codec : Codec α) (d : Document) : Except Trouble α := do
  let x ← codec.read d.root
  if d.trailing then .error .malformed else pure x

def readGlyphs {α : Type} (codec : Codec α) (s : List Text.Glyph) : Except Trouble α :=
  codec.readDocument (Document.read s)

def readText {α : Type} (codec : Codec α) (s : String) : Except Trouble α :=
  codec.readGlyphs (Text.glyphs s.toList)

end Codec

end MailRules.Json
