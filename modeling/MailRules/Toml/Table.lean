import MailRules.Settings.Value

/-!
# Tables as a document builds them

A document names its tables line by line, and each way of naming one has its own rights. A header
makes a table that no later header and no key with points may reopen. The tables above a header
come into being without one of their own, and may still get it. Keys with points make tables that
other keys with points may extend, and a header below them too, but not a header of their own.
Values, tables in braces among them, are closed.

So an item remembers how its table came about, and every operation below either keeps to these
rules or has no result.
-/

namespace MailRules.Toml

inductive Origin
  /-- A header of its own. -/
  | header
  /-- Only headers of tables in it. -/
  | implied
  /-- Keys with points. -/
  | dotted
  deriving DecidableEq, Repr

inductive Item
  | value (v : Setting)
  | table (origin : Origin) (entries : List (String × Item))
  /-- A list of tables, each with a header. The last one is open. -/
  | tables (earlier : List (List (String × Item))) (last : List (String × Item))
  deriving Inhabited

abbrev Entries := List (String × Item)

namespace Entries

/-- Changes the item of a key, or gives the key one. -/
def alter (key : String) (f : Option Item → Option Item) : Entries → Option Entries
  | [] => (f none).map fun item ↦ [(key, item)]
  | (k, item) :: rest =>
    if k = key then (f (some item)).map fun item ↦ (k, item) :: rest
    else (alter key f rest).map fun rest ↦ (k, item) :: rest

/-- Changes the table that a path of headers leads to. Tables that are not there come into being on
the way, and a list of tables is entered at its last. -/
def within (f : Entries → Option Entries) : List String → Entries → Option Entries
  | [], t => f t
  | key :: path, t =>
    alter key (fun
      | none => (within f path []).map (.table .implied)
      | some (.table origin es) => (within f path es).map (.table origin)
      | some (.tables earlier last) => (within f path last).map (.tables earlier)
      | some (.value _) => none) t

/-- The table of a header. -/
def openTable (key : String) : Entries → Option Entries :=
  alter key fun
    | none => some (.table .header [])
    | some (.table .implied es) => some (.table .header es)
    | some _ => none

/-- One more table of a list. -/
def addTable (key : String) : Entries → Option Entries :=
  alter key fun
    | none => some (.tables [] [])
    | some (.tables earlier last) => some (.tables (earlier ++ [last]) [])
    | some _ => none

/-- A value under a path of keys with points between them. The last table on the way has to be one
that such keys made; before that, one that headers imply may be passed. -/
def insert (v : Setting) : String → List String → Entries → Option Entries
  | key, [], t =>
    alter key (fun
      | none => some (.value v)
      | some _ => none) t
  | key, next :: path, t =>
    alter key (fun
      | none => (insert v next path []).map (.table .dotted)
      | some (.table .dotted es) => (insert v next path es).map (.table .dotted)
      | some (.table .implied es) =>
        if path.isEmpty then none else (insert v next path es).map (.table .implied)
      | some (.tables earlier last) =>
        if path.isEmpty then none else (insert v next path last).map (.tables earlier)
      | some _ => none) t

end Entries

/-! ## The settings in them -/

mutual

def Item.setting : Item → Setting
  | .value v => v
  | .table _ es => .table (settings es)
  | .tables earlier last => .list (tableSettings earlier ++ [.table (settings last)])

def settings : List (String × Item) → List (String × Setting)
  | [] => []
  | (key, item) :: es => (key, item.setting) :: settings es

def tableSettings : List (List (String × Item)) → List Setting
  | [] => []
  | es :: rest => .table (settings es) :: tableSettings rest

end

/-- The table of pairs between braces. Once it is made, it is a value. -/
def tableOfPairs? (pairs : List (List String × Setting)) : Option Setting := do
  let es ← pairs.foldlM (fun es (path, v) ↦
    match path with
    | [] => none
    | key :: path => Entries.insert v key path es) ([] : Entries)
  some (.table (settings es))

end MailRules.Toml
