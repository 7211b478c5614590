import MailRules.Toml.Value

/-!
# Documents

A document is a row of lines: blank ones, headers, and pairs that belong to the header above them.
It is read line by line into the tables that it has so far. Either the whole of it is well formed,
or there is no result; where it goes wrong is not kept.
-/

namespace MailRules.Toml

/-- Changes the item at the end of a path of headers. -/
def atHeader (f : String → Entries → Option Entries) (path : List String) (t : Entries) :
    Option Entries :=
  match path.getLast? with
  | none => none
  | some key => Entries.within (f key) path.dropLast t

/-- Puts a pair into the table of a header. -/
def place (here : List String) (pair : List String × Setting) (t : Entries) : Option Entries :=
  match pair.1 with
  | [] => none
  | key :: path => Entries.within (Entries.insert pair.2 key path) here t

/-- What a line of a document says. -/
inductive Line
  | blank
  | table (path : List String)
  | oneOfTables (path : List String)
  | pair (path : List String) (v : Setting)
  deriving Inhabited

/-- Reads a line without its end. A line that holds something is never blank. -/
def line? (s : List Char) : Option (Line × List Char) :=
  match skipBlank s with
  | '[' :: '[' :: s => do
    match ← keys? s with
    | (path, ']' :: ']' :: s) => some (.oneOfTables path, s)
    | _ => none
  | '[' :: s => do
    match ← keys? s with
    | (path, ']' :: s) => some (.table path, s)
    | _ => none
  | s =>
    if (lineEnd? s).isSome then some (.blank, s)
    else (pair? value? s).map fun ((path, v), s) ↦ (.pair path v, s)

/-- Tables under construction, and the header that pairs belong to. -/
structure Draft where
  entries : Entries := []
  here : List String := []

def Draft.add? (d : Draft) : Line → Option Draft
  | .blank => some d
  | .table path => (atHeader Entries.openTable path d.entries).map fun es ↦ ⟨es, path⟩
  | .oneOfTables path => (atHeader Entries.addTable path d.entries).map fun es ↦ ⟨es, path⟩
  | .pair path v => (place d.here (path, v) d.entries).map fun es ↦ { d with entries := es }

/-- Reads lines, at most so many. -/
def linesFrom : Nat → Draft → List Char → Option Draft
  | _, d, [] => some d
  | 0, _, _ => none
  | n + 1, d, s => do
    let (line, s) ← line? s
    let s ← lineEnd? s
    let d ← d.add? line
    linesFrom n d s

/-- The table at the root of a document. A mark of the byte order at its start is no part of it. -/
def read? (s : List Char) : Option (List (String × Setting)) :=
  let s := if s.head? = some '\uFEFF' then s.tail else s
  (linesFrom s.length {} s).map fun d ↦ settings d.entries

end MailRules.Toml
