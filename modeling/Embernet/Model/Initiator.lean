import Embernet.Model.Responder
/-!
# Initiator — the session a node asks for

`sync_from_peer_inner`. The client reads its store, answers the
responder's challenge, and then takes each text as it comes: it tries the
frames in the order of `classify`, and the first that fits is handled,
whatever came before it.
-/

set_option autoImplicit false

namespace Embernet

open Primitives

/-- What the client is given when it runs on: the clock, which it reads
twice, the key it expects of the peer, and random bytes. -/
structure Given where
  now : Int64
  now' : Int64
  expected : Except Error (Option String)
  nonces : ℕ → Bytes

namespace Initiator

/-! ## Waiting -/

/-- Where `sync_from_peer_inner` waits, and what it holds there. -/
inductive Await
  | challenge (chan : ChannelRef) (chunks : List ChunkSummary) (policyEvents : List PolicyEvent)
      (moderationEvents : List ModerationEvent) (identity : KeypairFile) (authTs : Int64)
  | frames (chan : ChannelRef) (identity : KeypairFile) (received : ℕ)
  | done (received : ℕ)
  deriving DecidableEq

/-- `read_client_challenge`. -/
def readChallenge : Incoming → Except Error AuthChallenge
  | .closed => bail "peer closed before authentication challenge"
  | .failed => throw ["websocket error"]
  | .other => bail "expected text authentication challenge"
  | .text t => do
    let challenge ← orBail ["invalid authentication challenge"] t.challenge
    bailIf (challenge.msgType ≠ "challenge") ["expected type=challenge"]
    pure challenge

/-- What the loop takes a text for. -/
inductive Command
  | complete
  | peerError (error : Option String)
  | policySync (m : PolicySync)
  | moderationSync (m : ModerationSync)
  | keySync (m : KeySync)
  | chunkDiff (m : ChunkDiff)
  | want (m : WantMessage)
  | envelope (m : Option Envelope)
  deriving DecidableEq

/-- The attempts of the loop, in order. -/
def classify (t : Decoded) : Command :=
  if t.response.any (·.status = "complete") then .complete
  else if t.response.any (·.status = "error") then .peerError (t.response.bind (·.error))
  else match t.policySync.filter (·.msgType = "policy_sync") with
  | some m => .policySync m
  | none => match t.moderationSync.filter (·.msgType = "moderation_sync") with
  | some m => .moderationSync m
  | none => match t.keySync.filter (·.msgType = "key_sync") with
  | some m => .keySync m
  | none => match t.chunkDiff.filter (·.msgType = "chunk_diff") with
  | some m => .chunkDiff m
  | none => match t.want.filter (·.msgType = "want") with
  | some m => .want m
  | none => .envelope t.envelope

variable [Primitives]

/-! ## Before the loop -/

/-- What the client reads of its store before it connects. -/
def start (channel : String) (authTs : Int64) : Session Await := do
  let chan ← (ChannelRef.parse channel : Except Error ChannelRef)
  -- each read takes the lock for itself
  let chunks ← Proc.call .chunkSummaries (chunkSummaries chan)
  let policyEvents ← ask .readPolicyHistory (readPolicyHistory chan)
  let moderationEvents ← ask .readModerationHistory (readModerationHistory chan)
  let identity ← ask .loadIdentity fun d =>
    context "load identity for synchronization" (loadIdentity d)
  pure (.challenge chan chunks policyEvents moderationEvents identity authTs)

/-- The answer to the challenge: a status packet, signed for this channel
and this responder. -/
def answerChallenge (chan : ChannelRef) (chunks : List ChunkSummary)
    (policyEvents : List PolicyEvent) (moderationEvents : List ModerationEvent)
    (identity : KeypairFile) (authTs : Int64) (challenge : AuthChallenge) (given : Given) :
    Except Error StatusMessage := do
  let expected ← given.expected
  -- the key that is pinned, or any where none is
  verifyAuthChallenge challenge "/sync" expected given.now given.now'
  let authSig ← identity.signBytes
    (syncAuthPayload authTs chan.fullName challenge.nonce challenge.responder)
  pure
    { msgType := "status", version := syncVersion, channel := chan.fullName,
      requester := identity.publicKey, authTs, authSig, policyEvents, moderationEvents, chunks }

/-- **What the client signs**: this channel, and the nonce and the key of
a challenge it has checked. -/
theorem answerChallenge_ok {chan : ChannelRef} {chunks : List ChunkSummary}
    {policyEvents : List PolicyEvent} {moderationEvents : List ModerationEvent}
    {identity : KeypairFile} {authTs : Int64} {challenge : AuthChallenge} {given : Given}
    {status : StatusMessage} :
    answerChallenge chan chunks policyEvents moderationEvents identity authTs challenge given =
        .ok status ↔
      ∃ expected authSig, given.expected = .ok expected ∧
        verifyAuthChallenge challenge "/sync" expected given.now given.now' = .ok () ∧
        identity.signBytes (syncAuthPayload authTs chan.fullName challenge.nonce
          challenge.responder) = .ok authSig ∧
        status =
          { msgType := "status", version := syncVersion, channel := chan.fullName,
            requester := identity.publicKey, authTs, authSig, policyEvents, moderationEvents,
            chunks } := by
  simp only [answerChallenge, bind_eq_ok, pure_eq_ok]
  constructor
  · rintro ⟨expected, hexpected, _, hverify, authSig, hsign, rfl⟩
    exact ⟨expected, authSig, hexpected, hverify, hsign, rfl⟩
  · rintro ⟨expected, authSig, hexpected, hverify, hsign, rfl⟩
    exact ⟨expected, hexpected, (), hverify, authSig, hsign, rfl⟩

/-! ## The loop -/

/-- A policy frame. -/
def takePolicySync (chan : ChannelRef) (m : PolicySync) : Session Unit :=
  if m.status = "conflict" then do
    let _ ← Proc.call .savePolicyConflict (savePolicyConflict chan m.events)
    bail "policy history fork"
  else do
    bailIf (m.status ≠ "update") [s!"unexpected policy sync status {m.status}"]
    let _ ← Proc.call .appendRemotePolicyHistory (appendRemotePolicyHistory chan m.events)
    pure ()

/-- A moderation frame. -/
def takeModerationSync (chan : ChannelRef) (m : ModerationSync) : Session Unit :=
  if m.status = "conflict" then do
    let _ ← Proc.call .saveModerationConflict (saveModerationConflict chan m.events)
    bail "moderation history fork"
  else do
    bailIf (m.status ≠ "update") [s!"unexpected moderation sync status {m.status}"]
    let _ ← Proc.call .appendRemoteModerationHistory
      (appendRemoteModerationHistory chan m.events)
    pure ()

/-- A key frame, which is answered with the client's own keys. -/
def takeKeySync (chan : ChannelRef) (identity : KeypairFile) (m : KeySync) (nonces : ℕ → Bytes) :
    Session Unit := do
  validateKeyOffers m
  let policy ← ask .readChannelPolicy (readChannelPolicy chan)
  bailIf (policy.visibility = .private_ ∧ policyAllowsRead policy m.identity = false)
    ["channel-key sender is not a channel member"]
  -- the offers are accepted before the client's own are made
  if policy.visibility = .private_ then do
    let _ ← Proc.call .acceptKeyOffers (acceptKeyOffers chan.fullName identity m.offers)
    let offers ← ask .makeKeyOffers (makeKeyOffers chan.fullName identity m.identity nonces)
    Proc.emit (.keySync ⟨"key_sync", identity.publicKey, offers⟩)
  else do
    bailIf (m.offers ≠ []) ["received channel keys for a public channel"]
    Proc.emit (.keySync ⟨"key_sync", identity.publicKey, []⟩)

/-- A request for the ids of buckets. -/
def takeChunkDiff (chan : ChannelRef) (m : ChunkDiff) : Session Unit := do
  let chunks ← readChunks chan m.wantChunks
  Proc.emit (.chunkIds ⟨"chunk_ids", chunks⟩)

/-- An envelope, or a text that is nothing else. -/
def takeEnvelope (chan : ChannelRef) (m : Option Envelope) : Session Unit := do
  let env ← orBail ["deserialize envelope"] m
  bailIf (env.channel ≠ chan.fullName)
    [s!"downloaded envelope {env.id} belongs to {env.channel}"]
  -- taken whenever it comes, also before the histories
  context s!"verify downloaded envelope {env.id}" env.verify
  let _ ← Proc.call .appendMessage (appendMessage chan env)
  pure ()

/-- One text. -/
def handle (chan : ChannelRef) (identity : KeypairFile) (received : ℕ) (nonces : ℕ → Bytes) :
    Command → Session Await
  | .complete => pure (.done received)
  | .peerError error =>
    let reason := error.getD "unknown"
    bail s!"peer error: {reason}"
  | .policySync m => do
    takePolicySync chan m
    pure (.frames chan identity received)
  | .moderationSync m => do
    takeModerationSync chan m
    pure (.frames chan identity received)
  | .keySync m => do
    takeKeySync chan identity m nonces
    pure (.frames chan identity received)
  | .chunkDiff m => do
    takeChunkDiff chan m
    pure (.frames chan identity received)
  | .want m => do
    -- whatever ids are asked for, as long as the log has them
    sendMessages chan m.ids
    pure (.frames chan identity received)
  | .envelope m => do
    takeEnvelope chan m
    pure (.frames chan identity (received + 1))

/-- From one point of waiting to the next. -/
def resume : Await → Incoming × Given → Session Await
  | .challenge chan chunks policyEvents moderationEvents identity authTs, (i, given) => do
    let challenge ← readChallenge i
    let status ← answerChallenge chan chunks policyEvents moderationEvents identity authTs
      challenge given
    Proc.emit (.status status)
    pure (.frames chan identity 0)
  | .frames chan identity received, (i, given) =>
    match i with
    | .text t => handle chan identity received given.nonces (classify t)
    | .other => pure (.frames chan identity received)
    | .failed => throw ["ws read error", "websocket error"]
    | .closed => bail "peer closed before sync completion"
  | .done received, _ => pure (.done received)

theorem resume_text (chan : ChannelRef) (identity : KeypairFile) (received : ℕ) (t : Decoded)
    (given : Given) : resume (.frames chan identity received) (.text t, given) =
      handle chan identity received given.nonces (classify t) := rfl

end Initiator

end Embernet
