import MailRules.Text.Basic
import MailRules.Text.Utf8
import MailRules.Store.Table
import MailRules.Store.Migration

/-!
# Files and directories

As much of a file system as the program meets: directories, files with text or stray bytes in them,
and files that hold a record store. A path is walked name by name from the root or from the working
directory, and the first name that leads nowhere decides what is wrong with it. A name that is
missing is a fault in the middle of a path; at its end it is a free place, where a file or a
directory can be made.
-/

namespace MailRules

open MailRules.Text

/-- What a store's file holds: the ledger of migrations, and the table once one of them made it. -/
abbrev Database := Ledgered (Option Table)

inductive DiskFault
  | notFound
  | exists
  | notDirectory
  | isDirectory
  /-- A file that should be text is not UTF-8. -/
  | notText
  deriving DecidableEq, Repr

def DiskFault.message : DiskFault → String
  | .notFound => "No such file or directory (os error 2)"
  | .exists => "File exists (os error 17)"
  | .notDirectory => "Not a directory (os error 20)"
  | .isDirectory => "Is a directory (os error 21)"
  | .notText => "stream did not contain valid UTF-8"

inductive Entry
  | directory
  | file (content : List Glyph)
  | database (d : Database)
  deriving DecidableEq, Repr

/-- The names from the root down. The root has none. -/
abbrev Location := List (List Char)

structure Disk where
  entries : List (Location × Entry) := []
  workingDirectory : Location := []
  deriving DecidableEq, Repr

namespace Disk

/-! ## Entries -/

def entry? (d : Disk) (l : Location) : Option Entry :=
  if l = [] then some .directory else d.entries.lookup l

/-- Puts an entry in place of the one at its location, or at the end. -/
def put (l : Location) (e : Entry) : List (Location × Entry) → List (Location × Entry)
  | [] => [(l, e)]
  | old :: rest => if old.1 = l then (l, e) :: rest else old :: put l e rest

def set (d : Disk) (l : Location) (e : Entry) : Disk := { d with entries := put l e d.entries }

/-! ## Walking -/

/-- Where a path leads. -/
inductive Place
  | taken (l : Location) (e : Entry)
  /-- Nothing is there, but a file or directory can be made. -/
  | free (l : Location)
  deriving DecidableEq, Repr

def Place.location : Place → Location
  | .taken l _ | .free l => l

/-- Walks names from a directory. -/
def walk (d : Disk) : Location → List (List Char) → Except DiskFault Place
  | l, [] => .ok (.taken l .directory)
  | l, name :: names =>
    if name = [] ∨ name = ['.'] then walk d l names
    else if name = ['.', '.'] then walk d l.dropLast names
    else match d.entry? (l ++ [name]) with
      | some .directory => walk d (l ++ [name]) names
      | some e => if names = [] then .ok (.taken (l ++ [name]) e) else .error .notDirectory
      | none => if names = [] then .ok (.free (l ++ [name])) else .error .notFound

/-- Where walking a path begins. -/
def start (d : Disk) (path : List Char) : Location :=
  if path.head? = some '/' then [] else d.workingDirectory

def find (d : Disk) (path : String) : Except DiskFault Place :=
  if path.isEmpty then .error .notFound
  else d.walk (d.start path.toList) (splitOn '/' path.toList)

/-! ## Reading and writing text -/

def read (d : Disk) (path : String) : Except DiskFault String := do
  match ← d.find path with
  | .free _ => .error .notFound
  | .taken _ .directory => .error .isDirectory
  | .taken _ (.database _) => .error .notText
  | .taken _ (.file content) =>
    match allChars? content with
    | some cs => pure (String.ofList cs)
    | none => .error .notText

/-- Writes a file anew. A path that ends in a slash can only be that of a directory. -/
def write (d : Disk) (path : String) (content : List Glyph) : Except DiskFault Disk := do
  if path.toList.getLast? = some '/' then
    let _ ← d.walk (d.start path.toList) ((splitOn '/' path.toList).filter (· ≠ []))
    .error .isDirectory
  else match ← d.find path with
    | .taken _ .directory => .error .isDirectory
    | place => pure (d.set place.location (.file content))

/-! ## Making directories -/

/-- The names on a path that lead to another directory. -/
def steps (path : List Char) : List (List Char) :=
  (splitOn '/' path).filter fun name ↦ name ≠ [] ∧ name ≠ ['.']

def makeDirectory (d : Disk) (l : Location) (names : List (List Char)) : Except DiskFault Disk := do
  match ← d.walk l names with
  | .taken _ .directory => pure d
  | .taken _ _ => .error .exists
  | .free l => pure (d.set l .directory)

/-- Makes a directory, given by its names from the last one up. Those above it are only made when
it turns out that one is missing. -/
def makeDirectories (d : Disk) (l : Location) : List (List Char) → Except DiskFault Disk
  | [] => pure d
  | name :: above =>
    match d.makeDirectory l (name :: above).reverse with
    | .error .notFound => do
      let d ← makeDirectories d l above
      d.makeDirectory l (name :: above).reverse
    | result => result

/-- Makes the directory that a path lies in. -/
def makeParent (d : Disk) (path : String) : Except DiskFault Disk :=
  d.makeDirectories (d.start path.toList) (steps path.toList).dropLast.reverse

end Disk

end MailRules
