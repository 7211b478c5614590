import MailRules.Settings.Source

/-!
# Settings of the program

Settings come from a file and then meet the environment, in three steps that never look back. First
a few variables stand in for what the file says. Then every text that is a marker gives way to the
variable that it names; what comes in this way is taken as it is, even if it looks like a marker
again. Last, a path that starts at the home directory is written out.

A variable that is asked for and not set is an error, and so is a limit that is no unsigned integer.
The limit is looked at before any marker, and the markers one after the other, so it is always the
first of these errors that is reported.
-/

namespace MailRules

/-- The value of each variable that is set. -/
abbrev Environment := String → Option String

namespace Settings

/-- The program and where it runs. -/
structure Program where
  name : String
  environment : String
  deriving DecidableEq, Repr

structure Paths where
  database : String
  rules : String
  credentials : String
  deriving DecidableEq, Repr

/-- The mailbox service and what is fetched from it. -/
structure Service where
  user : String := "me"
  apiBase : String := "https://gmail.googleapis.com/gmail/v1/users"
  label : String := "INBOX"
  limit : Nat := 10
  deriving DecidableEq, Repr

end Settings

structure Settings where
  program : Settings.Program
  paths : Settings.Paths
  service : Settings.Service
  deriving DecidableEq, Repr

namespace Settings

inductive LoadError
  | unreadable (fault : SourceFault)
  /-- A setting is missing or of the wrong kind. -/
  | unfit
  | missingVariable (name : String)
  | invalidLimit (fault : Text.IntegerFault)
  deriving DecidableEq, Repr

def LoadError.message : LoadError → String
  | .unreadable fault => s!"failed to read configuration file: {fault.message}"
  | .unfit => "failed to parse configuration: a setting is missing or of the wrong kind"
  | .missingVariable name => s!"missing required environment variable {name}"
  | .invalidLimit fault => s!"invalid MAILSIFT_FETCH_LIMIT override: {fault.message}"

/-! ## What the file says -/

/-- A setting that has to be there. -/
def required {α : Type} (read : Setting → Option α) (s : Option Setting) : Option α := s.bind read

/-- A setting with a value for when it is not there. If it is there, it has to be sound. -/
def optional {α : Type} (read : Setting → Option α) (absent : α) : Option Setting → Option α
  | none => some absent
  | some s => read s

def Program.ofSetting? (s : Setting) : Option Program := do
  match ← s.section? ["service_name", "env"] with
  | [name, environment] =>
    let name ← required Setting.asText? name
    let environment ← required Setting.asText? environment
    some { name, environment }
  | _ => none

def Paths.ofSetting? (s : Setting) : Option Paths := do
  match ← s.section? ["database", "rules", "credentials"] with
  | [database, rules, credentials] =>
    let database ← required Setting.asText? database
    let rules ← required Setting.asText? rules
    let credentials ← required Setting.asText? credentials
    some { database, rules, credentials }
  | _ => none

def Service.ofSetting? (s : Setting) : Option Service := do
  let absent : Service := {}
  match ← s.section? ["user_id", "api_base", "fetch_label", "fetch_limit"] with
  | [user, apiBase, label, limit] =>
    let user ← optional Setting.asText? absent.user user
    let apiBase ← optional Setting.asText? absent.apiBase apiBase
    let label ← optional Setting.asText? absent.label label
    let limit ← optional Setting.asUnsigned? absent.limit limit
    some { user, apiBase, label, limit }
  | _ => none

def ofSetting? (root : Setting) : Option Settings := do
  let program ← required Program.ofSetting? (root.entries.lookup "app")
  let paths ← required Paths.ofSetting? (root.entries.lookup "paths")
  let service ← optional Service.ofSetting? {} (root.entries.lookup "gmail")
  some { program, paths, service }

/-! ## What the environment says -/

/-- The limit, if a variable stands in for it. -/
def overriddenLimit (env : Environment) (limit : Nat) : Except LoadError Nat :=
  match env "MAILSIFT_FETCH_LIMIT" with
  | none => .ok limit
  | some t =>
    match Text.unsigned64 t.toList with
    | .ok n => .ok n
    | .error fault => .error (.invalidLimit fault)

/-- Lets the variables stand in for what the file says. -/
def overridden (env : Environment) (s : Settings) : Except LoadError Settings := do
  let limit ← overriddenLimit env s.service.limit
  let paths :=
    { s.paths with
      database := (env "MAILSIFT_DATABASE").getD s.paths.database
      rules := (env "MAILSIFT_RULES").getD s.paths.rules }
  pure { s with paths, service := { s.service with limit } }

/-- The variable that a marker names. -/
def marked? (s : String) : Option String :=
  match s.toList with
  | 'e' :: 'n' :: 'v' :: ':' :: name => some (String.ofList name)
  | _ => none

/-- The variable's value for a marker, and any other text as it is. -/
def resolve (env : Environment) (s : String) : Except LoadError String :=
  match marked? s with
  | none => .ok s
  | some name =>
    match env name with
    | some value => .ok value
    | none => .error (.missingVariable name)

/-- The texts that may be markers, in the order in which they are looked up. -/
def texts (s : Settings) : List String :=
  [s.program.name, s.program.environment, s.service.user, s.service.apiBase, s.service.label,
    s.paths.database, s.paths.rules, s.paths.credentials]

/-- The variables that markers name. -/
def markedNames (s : Settings) : List String := s.texts.filterMap marked?

/-- Resolves the markers, in the order in which they are looked up. -/
def resolved (env : Environment) (s : Settings) : Except LoadError Settings := do
  let name ← resolve env s.program.name
  let environment ← resolve env s.program.environment
  let user ← resolve env s.service.user
  let apiBase ← resolve env s.service.apiBase
  let label ← resolve env s.service.label
  let database ← resolve env s.paths.database
  let rules ← resolve env s.paths.rules
  let credentials ← resolve env s.paths.credentials
  pure
    { program := { name, environment }
      paths := { database, rules, credentials }
      service := { user, apiBase, label, limit := s.service.limit } }

/-- The home directory; an empty variable is none. -/
def home (env : Environment) : Option String := (env "HOME").filter fun s ↦ !s.isEmpty

/-- Writes out a tilde that is a path's first name. -/
def expandHome (home : Option String) (path : String) : String :=
  match home, path.toList with
  | some home, ['~'] => home
  | some home, '~' :: '/' :: rest => home ++ String.ofList ('/' :: rest)
  | _, _ => path

def expanded (env : Environment) (s : Settings) : Settings :=
  let expand := expandHome (home env)
  { s with
    paths :=
      { database := expand s.paths.database
        rules := expand s.paths.rules
        credentials := expand s.paths.credentials } }

/-- The settings that the file says, in the environment. -/
def inEnvironment (env : Environment) (s : Settings) : Except LoadError Settings := do
  let s ← s.overridden env
  let s ← s.resolved env
  pure (s.expanded env)

def load (d : Disk) (env : Environment) (path : String) : Except LoadError Settings :=
  match source d path with
  | .error fault => .error (.unreadable fault)
  | .ok root =>
    match ofSetting? root with
    | none => .error .unfit
    | some s => s.inEnvironment env

end Settings

end MailRules
