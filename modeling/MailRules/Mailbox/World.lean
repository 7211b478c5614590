import MailRules.Mailbox.CredentialsFile
import MailRules.Mailbox.Client
import MailRules.Store.Basic

/-!
# The world of a program

A disk and a network with a clock. The network may be anything with a state; the script is one
whose clock stands still, whose answers are listed beforehand and which writes down what is sent.
When its answers run out it answers that the server is at fault.
-/

namespace MailRules.Mailbox

open Http (Request Response)
open Calendar (Instant)

structure Network (ν : Type) where
  now : StateM ν Instant
  send : Request → StateM ν (Option Response)

structure World (ν : Type) where
  disk : Disk
  network : ν
  deriving DecidableEq, Repr

namespace World

variable {ν ε α : Type}

def onDisk (step : Step Disk ε α) : Step (World ν) ε α :=
  step.zoom World.disk fun d w ↦ { w with disk := d }

def onNetwork (x : StateM ν α) : StateM (World ν) α := fun w ↦
  let (a, n) := x.run w.network
  (a, { w with network := n })

end World

namespace Network

variable {ν : Type} (network : Network ν)

/-- A host that keeps no tokens. -/
def host : Host (World ν) where
  now := World.onNetwork network.now
  send request := World.onNetwork (network.send request)
  save _ := pure (.ok ())

/-- A host that keeps tokens in the file of the credentials they belong to. -/
def hostWithFile (path : String) (credentials : Credentials) : Host (World ν) where
  now := World.onNetwork network.now
  send request := World.onNetwork (network.send request)
  save tokens := fun w ↦
    let (result, d) := ({ credentials with tokens }.save path).run w.disk
    (match result with
      | .ok () => .ok ()
      | .error e => .error e.message, { w with disk := d })

end Network

/-! ## Scripts -/

structure Script where
  clock : Instant
  answers : List Response
  sent : List Request := []
  deriving DecidableEq, Repr

namespace Script

def answer (request : Request) (s : Script) : Response × Script :=
  match s.answers with
  | [] => (⟨500, []⟩, { s with sent := s.sent ++ [request] })
  | r :: rs => (r, { s with answers := rs, sent := s.sent ++ [request] })

def network : Network Script where
  now := fun s ↦ (s.clock, s)
  send request := fun s ↦
    let (response, s) := s.answer request
    (some response, s)

end Script

end MailRules.Mailbox
