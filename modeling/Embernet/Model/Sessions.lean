import Embernet.Lib.Dialogue
import Embernet.Model.Initiator
/-!
# Sessions — two nodes and the socket between them

One node asks for a channel and the other serves. Each writes its own
files only, the socket loses nothing and keeps the order, and a node whose
peer has left hears the end once it has taken what was sent before.
-/

set_option autoImplicit false

namespace Embernet

open Dialogue

/-- What a frame of the other node, or its leaving, is on the socket. -/
def arrival : Option Frame → Incoming
  | some m => .text m.decoded
  | none => .closed

variable [Primitives]

/-- `sync_from_peer_inner`, between its peer's frames. It leaves once the
session is complete. -/
def Initiator.conduct : Conduct Datadir Error Call Frame Initiator.Await Given where
  resume w i given := Initiator.resume w (arrival i, given)
  leaves
    | .done _ => True
    | _ => False

/-- `run_sync`, between its peer's frames. -/
def Responder.conduct : Conduct Datadir Error Call Frame Responder.Await Ambient where
  resume w i ambient := Responder.resume w (arrival i, ambient)
  leaves
    | .done => True
    | _ => False

/-- A state of a session that the first node asks of the second, which
serves under the identity it has loaded. -/
def InSession (channel : String) (d d' : Datadir)
    (s : Both Datadir Error Frame Initiator.Await Responder.Await) : Prop :=
  ∃ ts identity random now whos, loadIdentity d' = .ok identity ∧
    Run (Turn Initiator.conduct Responder.conduct)
      (Dialogue.start (Initiator.start channel ts) (Responder.start identity random now) d d')
      whos s

/-- The files that two nodes may come to have in one session between them,
whichever of them asks. -/
inductive Meets (channel : String) (d d' : Datadir) : Datadir → Datadir → Prop
  | asks {s : Both Datadir Error Frame Initiator.Await Responder.Await} :
      InSession channel d d' s → Meets channel d d' s.1.state s.2.state
  | serves {s : Both Datadir Error Frame Initiator.Await Responder.Await} :
      InSession channel d' d s → Meets channel d d' s.2.state s.1.state

end Embernet
