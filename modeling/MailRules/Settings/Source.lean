import MailRules.Disk
import MailRules.Settings.Json
import MailRules.Toml.Document

/-!
# Where settings are read from

The end of a file's name says in which format it is. A path that leads to no file may lack that end:
then the file with the end of one of the formats is read, the formats being tried in order. A file
that is there as it is named is never passed over for another one, even if its format is unknown.
-/

namespace MailRules.Settings

open Text

inductive Format
  | toml
  | json
  deriving DecidableEq, Repr

def Format.all : List Format := [.toml, .json]

def Format.extension : Format → List Char
  | .toml => ['t', 'o', 'm', 'l']
  | .json => ['j', 's', 'o', 'n']

/-- The table at the root of a text in the format. -/
def Format.read? : Format → List Char → Option (List (String × Setting))
  | .toml => Toml.read?
  | .json => Setting.ofJson?

/-- Why there are no settings. -/
inductive SourceFault
  | notFound (path : String)
  | unknownFormat (path : String)
  | unreadable (fault : DiskFault)
  | malformed
  deriving DecidableEq, Repr

def SourceFault.message : SourceFault → String
  | .notFound path => s!"configuration file \"{path}\" not found"
  | .unknownFormat path => s!"configuration file \"{path}\" is not of a registered file format"
  | .unreadable fault => fault.message
  | .malformed => "the text is not in the format of the file"

/-! ## Paths -/

/-- The names of a path from the root down, without what may stand after the last of them. -/
def names (d : Disk) (path : String) : List (List Char) :=
  let parts := splitOn '/' path.toList
  let parts := if path.toList.head? = some '/' then parts else d.workingDirectory ++ parts
  (parts.reverse.dropWhile fun name ↦ name = [] ∨ name = ['.']).reverse

/-- What stands after the last point of a name, unless the name starts with that point. -/
def extensionOf (name : List Char) : Option (List Char) :=
  match (splitOn '.' name).reverse with
  | [] | [_] | [_, []] => none
  | last :: _ => some last

/-- The format that the end of a path says. -/
def formatOf? (d : Disk) (path : String) : Option Format := do
  let name ← (names d path).getLast?
  let e ← extensionOf name
  Format.all.find? fun format ↦ format.extension = e

/-- A path with the end of a format added to its last name. -/
def withFormat (d : Disk) (path : String) (format : Format) : Option String :=
  let names := names d path
  match names.getLast? with
  | none | some ['.', '.'] => none
  | some _ =>
    some (String.ofList
      ('/' :: joinWith '/' (names.filter (· ≠ [])) ++ '.' :: format.extension))

/-! ## Reading -/

def isFile (d : Disk) (path : String) : Bool :=
  match d.find path with
  | .ok (.taken _ (.file _)) | .ok (.taken _ (.database _)) => true
  | _ => false

/-- The file that a path means, and its format. -/
def locate (d : Disk) (path : String) : Except SourceFault (String × Format) :=
  if isFile d path then
    match formatOf? d path with
    | some format => .ok (path, format)
    | none => .error (.unknownFormat path)
  else
    let candidate? (format : Format) : Option (String × Format) := do
      let path ← withFormat d path format
      if isFile d path then some (path, format) else none
    match Format.all.findSome? candidate? with
    | some found => .ok found
    | none => .error (.notFound path)

/-- The settings in the file that a path means. -/
def source (d : Disk) (path : String) : Except SourceFault Setting := do
  let (file, format) ← locate d path
  match d.read file with
  | .error fault => .error (.unreadable fault)
  | .ok text =>
    match format.read? text.toList with
    | none => .error .malformed
    | some root => pure (.ofRoot root)

end MailRules.Settings
