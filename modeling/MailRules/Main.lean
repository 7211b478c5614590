import MailRules.CommandLine.Run
import Std.Time.Format

/-!
# The program

The files that a call is about are read from the machine before it and written back after it; in
between, the call runs on a disk of its own. Which files those are follows from the settings, so the
settings file is read first.

The program has no connection to a network: no request can be sent, and a call that would send one
ends with that.
-/

namespace MailRules.Machine

open CommandLine (Invocation Outcome)
open Mailbox (Network World)

/-! ## Variables -/

def ownVariables : List String :=
  ["CONFIG_PATH", "HOME", "MAILSIFT_DATABASE", "MAILSIFT_RULES", "MAILSIFT_FETCH_LIMIT"]

/-- The environment as far as some variables go. -/
def environment (names : List String) : IO Environment := do
  let values ← names.mapM fun name ↦ return (name, ← IO.getEnv name)
  return fun name ↦ (List.lookup name values).join

/-! ## Files -/

/-- What is at a path. What is there and cannot be read as a file is a directory. -/
def entryAt (path : String) : IO (Option Entry) := do
  try
    let bytes ← IO.FS.readBinFile ⟨path⟩
    return some (.file (Text.Utf8.decode bytes.toList))
  catch
    | .noFileOrDirectory .. => return none
    | _ => return some .directory

def pathOf (l : Location) : String := String.ofList ('/' :: Text.joinWith '/' l)

/-- The location of a path and of everything above it, the root apart. -/
def locations (d : Disk) (path : String) : List Location :=
  let names := (d.start path.toList) ++ Disk.steps path.toList
  (List.range names.length).map fun i ↦ names.take (i + 1)

/-- Takes what is at some paths, and above them, onto the disk. -/
def take (d : Disk) (paths : List String) : IO Disk := do
  let mut d := d
  for path in paths do
    for l in locations d path do
      match ← entryAt (pathOf l) with
      | some e => d := d.set l e
      | none => pure ()
  return d

/-- Takes the database in a file for what it is. -/
def recognize (d : Disk) (path : String) : Disk :=
  match d.find path with
  | .ok (.taken l (.file content)) =>
    match (Text.allChars? content).bind fun cs ↦ Database.ofImage? (String.ofList cs) with
    | some db => d.set l (.database db)
    | none => d
  | _ => d

/-- The bytes of a text file. Nothing stray is ever written. -/
def bytesOf (content : List Text.Glyph) : ByteArray :=
  (String.ofList (Text.replaced content)).toUTF8

/-- Writes back what is new on a disk. -/
def giveBack (before after : Disk) : IO Unit := do
  for (l, e) in after.entries do
    if before.entry? l ≠ some e then
      match e with
      | .directory => IO.FS.createDirAll ⟨pathOf l⟩
      | .file content => IO.FS.writeBinFile ⟨pathOf l⟩ (bytesOf content)
      | .database db => IO.FS.writeFile ⟨pathOf l⟩ db.image

/-! ## Calls -/

/-- A network that nothing can be sent on, at a moment. -/
def disconnected (now : Calendar.Instant) : Network Unit where
  now := pure now
  send _ := pure none

/-- The settings before markers are resolved, if they can be read. -/
def settingsOf? (d : Disk) (env : Environment) (path : String) : Option Settings := do
  let root ← (Settings.source d path).toOption
  let s ← Settings.ofSetting? root
  (s.overridden env).toOption

/-- The disk and the environment that a call needs. -/
def surroundings (d : Disk) (env : Environment) (call : Invocation) : IO (Disk × Environment) := do
  let path := call.settings
  let d ← take d (path :: Settings.Format.all.filterMap (Settings.withFormat d path))
  match settingsOf? d env path with
  | none => return (d, env)
  | some s =>
    let env ← environment (ownVariables ++ s.markedNames)
    match s.resolved env with
    | .error _ => return (d, env)
    | .ok s =>
      let paths := (s.expanded env).paths
      let d ← take d [paths.database, paths.rules, paths.credentials]
      return (recognize d paths.database, env)

def now : IO Calendar.Instant := do
  let t := (← Std.Time.Timestamp.now).toNanosecondsSinceUnixEpoch.toInt
  let second : Int := Calendar.nanosPerSecond
  return ⟨t / second, (t % second).toNat⟩

def zone : IO Calendar.Zone := do
  return ((← IO.getEnv "TZ").bind Calendar.Zone.ofRule?).getD .utc

def run (words : List String) : IO Outcome := do
  let here ← IO.currentDir
  let d : Disk := { workingDirectory := Disk.steps here.toString.toList }
  let d ← take d ["."]
  let env ← environment ownVariables
  let (d, env) ←
    match Invocation.parse env words with
    | .error _ => pure (d, env)
    | .ok call => surroundings d env call
  let call := CommandLine.run (disconnected (← now)) (← zone) env words
  let (outcome, world) := call.run ⟨d, ()⟩
  giveBack d world.disk
  return outcome

end MailRules.Machine

def main (words : List String) : IO UInt32 := do
  let outcome ← MailRules.Machine.run words
  (← IO.getStdout).putStr outcome.output
  (← IO.getStderr).putStr outcome.errors
  return outcome.status.toUInt32
