import MailRules.Settings.Basic

/-!
# Arguments

A call names one command, with the options of that command after it. The settings file may be named
before the command, after it, in both places, or by a variable; what is nearer to the command wins.
An option takes one value, which is the next word or stands in the same one, and may be given once
in its place. Words are read from the left, so a call for help counts unless something before it is
wrong.
-/

namespace MailRules.CommandLine

inductive Command
  | checkRules
  | fetch (limit : Option Nat) (label : Option String)
  | process
  deriving DecidableEq, Repr

/-- A command, and the path of the settings file. -/
structure Invocation where
  settings : String
  command : Command
  deriving DecidableEq, Repr

/-- Why there is nothing to run. -/
inductive Refusal
  | usage
  | help
  deriving DecidableEq, Repr

/-- Where in a call an option stands: before the command, or after a command. -/
inductive Place
  | top
  | checkRules
  | fetch
  | process
  deriving DecidableEq, Repr

inductive Flag
  | settings
  | limit
  | label
  | help
  deriving DecidableEq, Repr

def Place.long? (place : Place) (name : String) : Option Flag :=
  if name = "config" then some .settings
  else if name = "help" then some .help
  else if place = .fetch ∧ name = "limit" then some .limit
  else if place = .fetch ∧ name = "label" then some .label
  else none

def Place.short? (place : Place) (letter : Char) : Option Flag :=
  if letter = 'h' then some .help
  else if place = .fetch ∧ letter = 'n' then some .limit
  else none

def Place.ofWord? : String → Option Place
  | "check-rules" => some .checkRules
  | "fetch" => some .fetch
  | "process" => some .process
  | _ => none

/-! ## Options -/

/-- The options in one place. -/
structure Given where
  settings : Option String := none
  limit : Option Nat := none
  label : Option String := none
  deriving DecidableEq, Repr

/-- Takes an option with its value. -/
def Given.take (g : Given) (value : String) : Flag → Except Refusal Given
  | .settings =>
    if g.settings.isSome ∨ value.isEmpty then .error .usage
    else .ok { g with settings := some value }
  | .limit =>
    match g.limit, Text.unsigned64 value.toList with
    | none, .ok n => .ok { g with limit := some n }
    | _, _ => .error .usage
  | .label =>
    if g.label.isSome then .error .usage else .ok { g with label := some value }
  | .help => .error .help

/-- A word that is read as an option, even where a value is expected. -/
def isOption (word : String) : Bool :=
  match word.toList with
  | '-' :: _ :: _ => true
  | _ => false

/-- The option in a word, and its value if that is in the word too. -/
def option? (place : Place) (word : String) : Except Refusal (Flag × Option String) :=
  match word.toList with
  | '-' :: '-' :: body =>
    let name := body.takeWhile (· != '=')
    let value :=
      match body.drop name.length with
      | [] => none
      | _ :: value => some (String.ofList value)
    match place.long? (String.ofList name), value with
    | none, _ | some .help, some _ => .error .usage
    | some .help, none => .error .help
    | some flag, value => .ok (flag, value)
  | '-' :: letter :: body =>
    match place.short? letter, body with
    | none, _ => .error .usage
    | some .help, _ => .error .help
    | some flag, [] => .ok (flag, none)
    | some flag, '=' :: value => .ok (flag, some (String.ofList value))
    | some flag, value => .ok (flag, some (String.ofList value))
  | _ => .error .usage

/-! ## Words -/

/-- Answers words that ask about commands. -/
def help : List String → Refusal
  | [] => .help
  | [word] => if (Place.ofWord? word).isSome || word = "help" then .help else .usage
  | _ => .usage

/-- Reads the options of a place. Before the command, they end with the command, which is given back
with the words after it. -/
def scan (place : Place) (g : Given) :
    List String → Except Refusal (Given × Option (Place × List String))
  | [] => .ok (g, none)
  | word :: words =>
    if word = "--" then (if words.isEmpty then .ok (g, none) else .error .usage)
    else if isOption word then
      match option? place word with
      | .error e => .error e
      | .ok (flag, some value) =>
        match g.take value flag with
        | .error e => .error e
        | .ok g => scan place g words
      | .ok (flag, none) =>
        match words with
        | [] => .error .usage
        | value :: words =>
          if isOption value then .error .usage
          else match g.take value flag with
            | .error e => .error e
            | .ok g => scan place g words
    else if place = .top then
      match Place.ofWord? word with
      | some place => .ok (g, some (place, words))
      | none => .error (if word = "help" then help words else .usage)
    else .error .usage

/-- The path of the settings file. The variable is looked at unless both places name a file, and it
may not be empty then. -/
def settingsPath (env : Environment) (before after : Option String) : Except Refusal String :=
  match before, after with
  | some _, some path => .ok path
  | before, after =>
    match env "CONFIG_PATH" with
    | some "" => .error .usage
    | fromVariable => .ok ((after <|> before <|> fromVariable).getD "config.toml")

def commandOf? (g : Given) : Place → Option Command
  | .top => none
  | .checkRules => some .checkRules
  | .fetch => some (.fetch g.limit g.label)
  | .process => some .process

def Invocation.parse (env : Environment) (words : List String) : Except Refusal Invocation := do
  match ← scan .top {} words with
  | (_, none) => .error .usage
  | (before, some (place, words)) =>
    let (after, _) ← scan place {} words
    let settings ← settingsPath env before.settings after.settings
    match commandOf? after place with
    | none => .error .usage
    | some command => pure { settings, command }

end MailRules.CommandLine
