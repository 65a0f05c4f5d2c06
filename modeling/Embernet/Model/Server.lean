import Embernet.Lib.Solo
import Embernet.Model.Discovery
import Embernet.Model.Responder
/-!
# Server — the routes of a node

`server.rs`. `GET /challenge` and `GET /status` answer at once, and
`GET /sync` opens a session, which is told the frames of its client one by
one. A session runs from each frame to the point at which it waits for the
next, or ends and closes its socket.
-/

set_option autoImplicit false

namespace Embernet

/-- What reaches a node, with the clocks and the random bytes that its
answer takes. -/
inductive Request
  | challenge (random : Bytes) (now now' : Int64)
  | status (headers : DiscoveryHeaders) (now now' : Int64)
  | sync (random : Bytes) (now : Int64)
  | frame (session : ℕ) (i : Incoming) (ambient : Ambient)

/-- What a node answers: a response, or the frames of a session and whether
it closes its socket. -/
inductive Reply
  | challenge (response : Response AuthChallenge)
  | status (response : Response PeerStatus)
  | frames (ms : List Frame) (closes : Bool)

/-- A node that serves: its files, what its handlers share, and where its
sessions wait. A session that is over waits nowhere. -/
structure Server where
  files : Datadir
  app : AppState
  sessions : List (Option Responder.Await) := []

/-- Where a session waits that has run on. -/
def Responder.waits : Except Error Responder.Await → Option Responder.Await
  | .error _ | .ok .done => none
  | .ok w => some w

namespace Server

variable [Primitives]

/-- `handle_sync`, from its start or a frame on. -/
def runs (s : Server) (task : Session Responder.Await)
    (put : Option Responder.Await → List (Option Responder.Await)) : Reply × Server :=
  let (ms, r, files) := task.solo s.files
  (.frames ms (Responder.waits r).isNone,
    { s with files := files, sessions := put (Responder.waits r) })

/-- One request. -/
def handle (s : Server) : Request → Reply × Server
  | .challenge random now now' =>
    let (response, app) := challengeHandler random now now' s.app
    (.challenge response, { s with app := app })
  | .status headers now now' =>
    let (response, app) := statusHandler s.files headers now now' s.app
    (.status response, { s with app := app })
  | .sync random now =>
    s.runs (Responder.start s.app.identity random now) fun w => s.sessions ++ [w]
  | .frame n i ambient =>
    match s.sessions[n]?.join with
    -- the session is over, or there never was one
    | none => (.frames [] true, s)
    | some w => s.runs (Responder.resume w (i, ambient)) fun w => s.sessions.set n w

/-- One request after the other. -/
def serve (s : Server) : List Request → List Reply × Server
  | [] => ([], s)
  | r :: rs =>
    let (reply, t) := s.handle r
    let (replies, u) := t.serve rs
    (reply :: replies, u)

end Server

end Embernet
