import MailRules.Disk
import MailRules.Mailbox.Token

/-!
# Credentials in a file

Credentials are read from a file once and written back whenever the tokens change, always as a
whole: what belongs to the client stays as it was loaded.
-/

namespace MailRules.Mailbox

/-- A file could not be written. -/
structure WriteError where
  path : String
  fault : DiskFault
  deriving DecidableEq, Repr

def WriteError.message (e : WriteError) : String :=
  s!"failed to write credentials to {e.path}: {e.fault.message}"

namespace Credentials

inductive LoadError
  | unreadable (path : String) (fault : DiskFault)
  | undecodable (trouble : Json.Trouble)
  deriving DecidableEq, Repr

def LoadError.message : LoadError → String
  | .unreadable path fault => s!"failed to read credentials from {path}: {fault.message}"
  | .undecodable trouble => s!"invalid credentials json: {trouble.message}"

/-- What the error says, and below it what the error behind it says. -/
def LoadError.report (e : LoadError) : List String :=
  match e with
  | .unreadable _ fault => [e.message, fault.message]
  | .undecodable trouble => [e.message, trouble.message]

def load (d : Disk) (path : String) : Except LoadError Credentials :=
  match d.read path with
  | .error fault => .error (.unreadable path fault)
  | .ok source =>
    match codec.readText source with
    | .error trouble => .error (.undecodable trouble)
    | .ok credentials => .ok credentials

/-- Writes the credentials to a file. A write that fails leaves the disk as it was. -/
def save (c : Credentials) (path : String) : Step Disk WriteError Unit :=
  Step.ofRun fun d ↦
    match d.write path (Text.glyphs c.text.toList) with
    | .error fault => (.error ⟨path, fault⟩, d)
    | .ok d => (.ok (), d)

end Credentials

end MailRules.Mailbox
