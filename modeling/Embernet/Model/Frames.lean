import Embernet.Lib.Process
import Embernet.Model.MessageStore
/-!
# Frames — what a session sends, and how it is read

`sync.rs`. Every frame is one JSON text. The reader does not know which
frame a text is: it tries the types it expects, and a text of one frame
may also read as another, since fields it does not know are ignored.
`Decoded` holds what each attempt gives, so any text a peer may send is a
value of it; `Frame.decoded` is what the texts of our own frames give.
-/

set_option autoImplicit false

namespace Embernet

/-! ## The frames -/

/-- The responder names itself, and gives the nonce that the initiator must
sign before it expires. -/
structure AuthChallenge where
  msgType : String
  nonce : String
  responder : String
  expires : Int64
  signature : String
  deriving DecidableEq

/-- The initiator asks for a channel: who it is, signed for the challenge, and
what it holds of the channel. -/
structure StatusMessage where
  msgType : String
  version : ℕ
  channel : String
  requester : String
  authTs : Int64
  authSig : String
  policyEvents : List PolicyEvent
  moderationEvents : List ModerationEvent
  chunks : List ChunkSummary
  deriving DecidableEq

/-- The responder answers with an update or a conflict. -/
structure PolicySync where
  msgType : String
  status : String
  events : List PolicyEvent
  deriving DecidableEq

/-- The same of the moderation. -/
structure ModerationSync where
  msgType : String
  status : String
  events : List ModerationEvent
  deriving DecidableEq

/-- Either side hands the keys of a private channel over. -/
structure KeySync where
  msgType : String
  identity : String
  offers : List KeyOffer
  deriving DecidableEq

/-- The ids of one bucket. -/
structure ChunkIds where
  index : ℕ
  ids : List String
  deriving DecidableEq

/-- The buckets that differ: those the responder has listed, and those it
wants listed. -/
structure ChunkDiff where
  msgType : String
  chunks : List ChunkIds
  wantChunks : List ℕ
  deriving DecidableEq

/-- The initiator lists the buckets that are wanted. -/
structure ChunkBatch where
  msgType : String
  chunks : List ChunkIds
  deriving DecidableEq

/-- What one side asks the other to send. -/
structure WantMessage where
  msgType : String
  ids : List String
  deriving DecidableEq

/-- The last frame: the exchange is complete, or an error. -/
structure SyncResponse where
  msgType : String
  status : String
  sent : Option ℕ
  received : Option ℕ
  error : Option String
  deriving DecidableEq

/-- `SyncResponse::complete`. -/
def SyncResponse.complete (sent received : ℕ) : SyncResponse where
  msgType := "response"
  status := "complete"
  sent := some sent
  received := some received
  error := none

/-- A frame that either side sends. -/
inductive Frame
  | challenge (m : AuthChallenge)
  | status (m : StatusMessage)
  | policySync (m : PolicySync)
  | moderationSync (m : ModerationSync)
  | keySync (m : KeySync)
  | chunkDiff (m : ChunkDiff)
  | chunkIds (m : ChunkBatch)
  | want (m : WantMessage)
  | envelope (m : Envelope)
  | response (m : SyncResponse)
  deriving DecidableEq

/-! ## Reading -/

/-- What a text reads as, for each type that is tried. -/
structure Decoded where
  challenge : Option AuthChallenge := none
  status : Option StatusMessage := none
  policySync : Option PolicySync := none
  moderationSync : Option ModerationSync := none
  keySync : Option KeySync := none
  chunkDiff : Option ChunkDiff := none
  chunkBatch : Option ChunkBatch := none
  want : Option WantMessage := none
  envelope : Option Envelope := none
  response : Option SyncResponse := none

/-- What arrives on a socket: a text, another kind of message, an error,
or the end. -/
inductive Incoming
  | text (t : Decoded)
  | other
  | failed
  | closed

/-- The text of a frame, read as each type. A frame with a type and a
status reads as a response; one with a list that is empty reads as a frame
whose list holds something else. -/
def Frame.decoded : Frame → Decoded
  | .challenge m => { challenge := some m }
  | .status m =>
    { status := some m
      chunkBatch := if m.chunks = [] then some ⟨m.msgType, []⟩ else none }
  | .policySync m =>
    { policySync := some m
      moderationSync := if m.events = [] then some ⟨m.msgType, m.status, []⟩ else none
      response := some ⟨m.msgType, m.status, none, none, none⟩ }
  | .moderationSync m =>
    { moderationSync := some m
      policySync := if m.events = [] then some ⟨m.msgType, m.status, []⟩ else none
      response := some ⟨m.msgType, m.status, none, none, none⟩ }
  | .keySync m => { keySync := some m }
  | .chunkDiff m => { chunkDiff := some m, chunkBatch := some ⟨m.msgType, m.chunks⟩ }
  | .chunkIds m => { chunkBatch := some m }
  | .want m => { want := some m }
  | .envelope m => { envelope := some m }
  | .response m => { response := some m }

/-! ## Sessions -/

/-- The calls of a session and of the operations beside it, by name. -/
inductive Call
  | readPolicyHistory
  | readChannelPolicy
  | savePolicyConflict
  | appendRemotePolicyHistory
  | validateModerationHistory
  | readModerationHistory
  | saveModerationConflict
  | appendRemoteModerationHistory
  | loadIdentity
  | makeKeyOffers
  | acceptKeyOffers
  | chunkSummaries
  | chunkIds
  | readMessageById
  | appendMessage
  | generateChannelKey
  | appendPolicyAction
  deriving DecidableEq

/-- A session's code between two points at which it waits. -/
abbrev Session (α : Type) := Proc Datadir Error Call Frame α

/-- A read, as one call. -/
def ask {α : Type} (name : Call) (q : ReadM α) : Session α := Proc.call name (liftM q)

/-- `KeypairFile::load_secure`, of the node's identity. -/
def loadIdentity : ReadM KeypairFile := fun d =>
  match d.identity with
  | .absent => bail "No such file or directory"
  | .malformed => bail "serde_json"
  | .value identity => pure identity

variable [Primitives]

/-! ## Authentication -/

/-- `responder_challenge_payload`. -/
def responderChallengePayload (target nonce responder : String) (expires : Int64) : Bytes :=
  utf8 s!"embernet-responder-challenge-v1\n{target}\n{nonce}\n{responder}\n{expires}"

/-- `sync_auth_payload`. -/
def syncAuthPayload (timestamp : Int64) (channel nonce responder : String) : Bytes :=
  utf8 s!"embernet-sync-auth-v2\n{timestamp}\n{channel}\n{nonce}\n{responder}"

/-- `discovery_auth_payload`. -/
def discoveryAuthPayload (timestamp : Int64) (nonce responder : String) : Bytes :=
  utf8 s!"embernet-discovery-v2\n{timestamp}\n/status\n{nonce}\n{responder}"

/-- `make_auth_challenge`, from 32 random bytes, at the clock `now`. -/
def makeAuthChallenge (identity : KeypairFile) (target : String) (random : Bytes) (now : Int64) :
    Except Error AuthChallenge := do
  let nonce := hexEncode random
  let expires := now + 60
  let signature ← identity.signBytes
    (responderChallengePayload target nonce identity.publicKey expires)
  pure { msgType := "challenge", nonce, responder := identity.publicKey, expires, signature }

theorem makeAuthChallenge_ok {identity : KeypairFile} {target : String} {random : Bytes}
    {now : Int64} {challenge : AuthChallenge} :
    makeAuthChallenge identity target random now = .ok challenge ↔
      ∃ signature, identity.signBytes (responderChallengePayload target (hexEncode random)
          identity.publicKey (now + 60)) = .ok signature ∧
        challenge = { msgType := "challenge", nonce := hexEncode random,
                      responder := identity.publicKey, expires := now + 60, signature } := by
  simp only [makeAuthChallenge, bind_eq_ok, pure_eq_ok]
  exact exists_congr fun _ => and_congr_right fun _ => eq_comm

/-- `verify_auth_challenge`, at the clock readings `now` and `now'`. -/
def verifyAuthChallenge (challenge : AuthChallenge) (target : String) (expected : Option String)
    (now now' : Int64) : Except Error Unit := do
  bailIf (challenge.msgType ≠ "challenge") ["expected type=challenge"]
  bailIf (challenge.expires < now ∨ challenge.expires > now' + 60)
    ["invalid authentication challenge expiry"]
  let nonce ← orBail ["invalid challenge nonce"] (hexDecode challenge.nonce)
  bailIf (nonce.length ≠ 32) ["challenge nonce must contain 32 bytes"]
  let pin := expected.getD ""
  bailIf (expected.isSome ∧ expected ≠ some challenge.responder)
    [s!"peer identity mismatch: expected {pin}, received {challenge.responder}"]
  context "invalid responder challenge signature"
    (verifyBytes challenge.responder challenge.signature
      (responderChallengePayload target challenge.nonce challenge.responder challenge.expires))

/-- What a challenge that is accepted has been checked for. -/
theorem verifyAuthChallenge_ok {challenge : AuthChallenge} {target : String}
    {expected : Option String} {now now' : Int64} {u : Unit} :
    verifyAuthChallenge challenge target expected now now' = .ok u ↔
      challenge.msgType = "challenge" ∧
      ¬ (challenge.expires < now ∨ challenge.expires > now' + 60) ∧
      (∃ nonce, hexDecode challenge.nonce = some nonce ∧ nonce.length = 32) ∧
      (∀ pin ∈ expected, pin = challenge.responder) ∧
      verifyBytes challenge.responder challenge.signature (responderChallengePayload target
        challenge.nonce challenge.responder challenge.expires) = .ok () := by
  have hpin : ¬ (expected.isSome = true ∧ expected ≠ some challenge.responder) ↔
      ∀ pin ∈ expected, pin = challenge.responder := by
    cases expected <;> simp
  simp only [verifyAuthChallenge, bind_eq_ok, bailIf_eq_ok, orBail_eq_ok, context_eq_ok, hpin,
    exists_const, not_not, ne_eq]
  constructor
  · rintro ⟨htype, hexpires, nonce, hnonce, hlength, hpin, hsig⟩
    exact ⟨htype, hexpires, ⟨nonce, hnonce, hlength⟩, hpin, hsig⟩
  · rintro ⟨htype, hexpires, ⟨nonce, hnonce, hlength⟩, hpin, hsig⟩
    exact ⟨htype, hexpires, nonce, hnonce, hlength, hpin, hsig⟩

end Embernet
