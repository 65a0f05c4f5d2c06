import Mathlib.Data.Finset.Sort
import Embernet.Model.Frames
/-!
# Responder — the session a node serves

`run_sync`. The session is cut where it waits for a frame: `Await` is a
point of waiting with what the code holds there, and `resume` runs from
one to the next. Between two calls on the store anything else may run.

A send that fails ends the session, so what a session with a failing
socket does is the beginning of what it does with one that works.
-/

set_option autoImplicit false

namespace Embernet

open Primitives

/-! ## Limits -/

/-- `SYNC_VERSION`. -/
def syncVersion : ℕ := 9

/-- `MAX_DIFFERING_IDS`. -/
def maxDifferingIds : ℕ := 100000

/-- `MAX_POLICY_EVENTS`. -/
def maxPolicyEvents : ℕ := 10000

/-- `MAX_MODERATION_EVENTS`. -/
def maxModerationEvents : ℕ := 100000

/-- `MAX_KEY_OFFERS`. -/
def maxKeyOffers : ℕ := 4096

/-! ## What a session cannot foresee -/

/-- The order in which a hash set gives its elements. -/
structure Iteration where
  list : Finset String → List String
  nodup : ∀ s, (list s).Nodup
  toFinset : ∀ s, (list s).toFinset = s

/-- What a session is given when it runs on: the clock, which it may read
twice, random bytes, and the orders of two hash sets. -/
structure Ambient where
  now : Int64
  now' : Int64
  nonces : ℕ → Bytes
  wantOrder : Iteration
  sendOrder : Iteration

/-- The next text, for a loop that passes over other messages. -/
def nextText (closed : String) : Incoming → Except Error (Option Decoded)
  | .text t => pure (some t)
  | .other => pure none
  | .failed => throw ["websocket error"]
  | .closed => throw [closed]

section Shared

variable [Primitives]

/-- `validate_key_offers`. -/
def validateKeyOffers (sync : KeySync) : Except Error Unit := do
  bailIf (sync.offers.length > maxKeyOffers)
    [s!"channel-key exchange exceeds {maxKeyOffers} offers"]
  bailIf (sync.offers.any (·.sender ≠ sync.identity) = true)
    ["channel-key offer sender does not match peer identity"]

/-- The ids of buckets, read one bucket after the other. -/
def readChunks (chan : ChannelRef) : List ℕ → Session (List ChunkIds)
  | [] => pure []
  | index :: indices => do
    let ids ← Proc.call .chunkIds (chunkIds chan index)
    let rest ← readChunks chan indices
    pure (⟨index, ids⟩ :: rest)

/-- Messages, each read and sent before the next is read. -/
def sendMessages (chan : ChannelRef) : List String → Session Unit
  | [] => pure ()
  | id :: ids => do
    let env ← Proc.call .readMessageById (readMessageById chan id)
    Proc.emit (.envelope env)
    sendMessages chan ids

end Shared

namespace Responder

/-! ## Waiting -/

/-- Where `run_sync` waits, and what it holds there. -/
inductive Await
  | status (challenge : AuthChallenge)
  | keySync (chan : ChannelRef) (status : StatusMessage) (policy : ChannelPolicy)
      (serverIdentity : Option KeypairFile)
  | chunkIds (chan : ChannelRef) (serverChunks : List ChunkIds) (differing : List ℕ)
  | upload (chan : ChannelRef) (sent : ℕ) (wanted : Finset String) (received : ℕ)
  | done
  deriving DecidableEq

/-- `read_status`. -/
def readStatus : Incoming → Except Error StatusMessage
  | .closed => bail "ws closed before status"
  | .failed => throw ["ws error reading status", "websocket error"]
  | .other => bail "expected text status"
  | .text t => do
    let status ← orBail ["invalid status packet"] t.status
    bailIf (status.msgType ≠ "status") [s!"expected type=status, got type={status.msgType}"]
    pure status

/-- One turn of the loop of `read_key_sync`. -/
def readKeySync (i : Incoming) : Except Error (Option KeySync) := do
  match ← nextText "peer closed before channel-key response" i with
  | none => pure none
  | some t =>
    let sync ← orBail ["invalid channel-key response"] t.keySync
    bailIf (sync.msgType ≠ "key_sync") ["expected type=key_sync"]
    pure (some sync)

/-- One turn of the loop of `read_chunk_batch`. -/
def readChunkBatch (i : Incoming) : Except Error (Option ChunkBatch) := do
  match ← nextText "peer closed before chunk inventory" i with
  | none => pure none
  | some t =>
    let batch ← orBail ["invalid chunk batch"] t.chunkBatch
    bailIf (batch.msgType ≠ "chunk_ids") ["expected type=chunk_ids"]
    pure (some batch)

/-- What the upload loop reads. -/
def readUpload (i : Incoming) : Except Error (Option Envelope) := do
  match ← nextText "peer closed during upload" i with
  | none => pure none
  | some t =>
    let env ← orBail ["deserialize uploaded envelope"] t.envelope
    pure (some env)

variable [Primitives]

/-! ## Before the store is read -/

/-- The challenge that opens the session. -/
def start (identity : KeypairFile) (random : Bytes) (now : Int64) : Session Await := do
  let challenge ← makeAuthChallenge identity "/sync" random now
  Proc.emit (.challenge challenge)
  pure (.status challenge)

/-- The checks of a status packet by itself. -/
def checkStatus (challenge : AuthChallenge) (status : StatusMessage) (now now' : Int64) :
    Except Error ChannelRef := do
  bailIf (status.version ≠ syncVersion) [s!"unsupported sync version: {status.version}"]
  bailIf (status.policyEvents.length > maxPolicyEvents)
    [s!"policy history exceeds {maxPolicyEvents} events"]
  bailIf (status.moderationEvents.length > maxModerationEvents)
    [s!"moderation history exceeds {maxModerationEvents} events"]
  bailIf (status.chunks.length > merkleBucketCount ∨
      status.chunks.any (fun chunk => decide (chunk.index ≥ merkleBucketCount)) = true)
    ["invalid chunk summary inventory"]
  let chan ← context "invalid channel name in status" (ChannelRef.parse status.channel)
  -- both wrap: the difference, and the absolute value
  bailIf ((now - status.authTs).abs > 60) ["stale sync authentication"]
  bailIf (challenge.expires < now') ["expired sync authentication challenge"]
  context "invalid sync authentication" (verifyBytes status.requester status.authSig
    (syncAuthPayload status.authTs status.channel challenge.nonce challenge.responder))
  -- only that it derives; the policy is not used
  let _ ← derivePolicy chan status.policyEvents
  pure chan

/-- What `run_sync` checks of a status packet, its clock apart. -/
structure StatusChecked (challenge : AuthChallenge) (status : StatusMessage) (chan : ChannelRef) :
    Prop where
  version : status.version = syncVersion
  policyLength : status.policyEvents.length ≤ maxPolicyEvents
  moderationLength : status.moderationEvents.length ≤ maxModerationEvents
  chunks : ¬ (status.chunks.length > merkleBucketCount ∨
    status.chunks.any (fun chunk => decide (chunk.index ≥ merkleBucketCount)) = true)
  channel : ChannelRef.parse status.channel = .ok chan
  signature : verifyBytes status.requester status.authSig
    (syncAuthPayload status.authTs status.channel challenge.nonce challenge.responder) = .ok ()
  policy : ∃ policy, derivePolicy chan status.policyEvents = .ok policy

/-- **What a status packet that is taken has been checked for.** -/
theorem checkStatus_ok {challenge : AuthChallenge} {status : StatusMessage} {now now' : Int64}
    {chan : ChannelRef} :
    checkStatus challenge status now now' = .ok chan ↔
      StatusChecked challenge status chan ∧ ¬ (now - status.authTs).abs > 60 ∧
        ¬ challenge.expires < now' := by
  simp only [checkStatus, bind_eq_ok, bailIf_eq_ok, context_eq_ok, pure_eq_ok]
  constructor
  · rintro ⟨_, hversion, _, hpolicy, _, hmoderation, _, hchunks, _, hchannel, _, hstale, _,
      hexpired, _, hsig, policy, hderive, rfl⟩
    exact ⟨⟨not_not.1 hversion, not_lt.1 hpolicy, not_lt.1 hmoderation, hchunks, hchannel, hsig,
      policy, hderive⟩, hstale, hexpired⟩
  · rintro ⟨h, hstale, hexpired⟩
    obtain ⟨policy, hderive⟩ := h.policy
    exact ⟨(), not_not.2 h.version, (), not_lt.2 h.policyLength, (), not_lt.2 h.moderationLength,
      (), h.chunks, chan, h.channel, (), hstale, (), hexpired, (), h.signature, policy, hderive,
      rfl⟩

/-! ## The two histories -/

/-- The local policy history, where the local policy admits the
requester. -/
def admitRequester (chan : ChannelRef) (requester : String) : Session (List PolicyEvent) := do
  let localPolicy ← ask .readPolicyHistory (readPolicyHistory chan)
  let currentPolicy ← ask .readChannelPolicy (readChannelPolicy chan)
  bailIf (policyAllowsRead currentPolicy requester = false)
    [s!"requester is not a member of private channel {chan.fullName}"]
  pure localPolicy

/-- Saves a fork and refuses it, or appends what the client has more. -/
def takePolicy (chan : ChannelRef) (localPolicy remote : List PolicyEvent) : Session Unit := do
  let localPrefix := idPrefix PolicyEvent.id localPolicy remote
  let remotePrefix := idPrefix PolicyEvent.id remote localPolicy
  if !localPrefix && !remotePrefix then do
    let _ ← Proc.call .savePolicyConflict (savePolicyConflict chan remote)
    Proc.emit (.policySync ⟨"policy_sync", "conflict", localPolicy⟩)
    bail "policy history fork"
  else if localPrefix && decide (remote.length > localPolicy.length) then do
    let _ ← Proc.call .appendRemotePolicyHistory (appendRemotePolicyHistory chan remote)
    pure ()
  else pure ()

/-- The reconciled policy history, where the reconciled policy admits the
requester. -/
def sendPolicy (chan : ChannelRef) (requester : String) : Session Unit := do
  -- asked again: what was taken in may have put the requester out
  let reconciled ← ask .readChannelPolicy (readChannelPolicy chan)
  bailIf (policyAllowsRead reconciled requester = false)
    [s!"requester is not a member of private channel {chan.fullName} after policy reconciliation"]
  let events ← ask .readPolicyHistory (readPolicyHistory chan)
  Proc.emit (.policySync ⟨"policy_sync", "update", events⟩)

/-- The same for the moderation history. -/
def takeModeration (chan : ChannelRef) (remote : List ModerationEvent) : Session Unit := do
  -- under the policy history that was reconciled
  let _ ← ask .validateModerationHistory (deriveModeration chan remote)
  let localModeration ← ask .readModerationHistory (readModerationHistory chan)
  let localPrefix := idPrefix ModerationEvent.id localModeration remote
  let remotePrefix := idPrefix ModerationEvent.id remote localModeration
  if !localPrefix && !remotePrefix then do
    let _ ← Proc.call .saveModerationConflict (saveModerationConflict chan remote)
    Proc.emit (.moderationSync ⟨"moderation_sync", "conflict", localModeration⟩)
    bail "moderation history fork"
  else if localPrefix && decide (remote.length > localModeration.length) then do
    let _ ← Proc.call .appendRemoteModerationHistory (appendRemoteModerationHistory chan remote)
    pure ()
  else pure ()

/-- The moderation history that the node then has. -/
def sendModeration (chan : ChannelRef) : Session Unit := do
  let events ← ask .readModerationHistory (readModerationHistory chan)
  Proc.emit (.moderationSync ⟨"moderation_sync", "update", events⟩)

/-! ## The channel keys -/

/-- The identity that serves a private channel. -/
def serverIdentity (policy : ChannelPolicy) : Session (Option KeypairFile) :=
  if policy.visibility = .private_ then do
    let identity ← ask .loadIdentity fun d =>
      context "load server identity for private channel-key exchange" (loadIdentity d)
    bailIf (policyAllowsRead policy identity.publicKey = false)
      ["serving identity is not a member of private channel"]
    pure (some identity)
  else pure none

/-- The offers of a private channel's keys to the requester. -/
def keyOffers (chan : ChannelRef) (requester : String) (nonces : ℕ → Bytes) :
    Option KeypairFile → Session (List KeyOffer)
  | some identity =>
    ask .makeKeyOffers (makeKeyOffers chan.fullName identity requester nonces)
  | none => pure []

/-- The policy is read, then the keys, and both count for the rest of the
session. -/
def sendKeys (chan : ChannelRef) (status : StatusMessage) (nonces : ℕ → Bytes) :
    Session Await := do
  let policy ← ask .readChannelPolicy (readChannelPolicy chan)
  bailIf (policyAllowsRead policy status.requester = false)
    ["requester is not authorized to receive channel keys"]
  let identity ← serverIdentity policy
  let offers ← keyOffers chan status.requester nonces identity
  Proc.emit (.keySync ⟨"key_sync", (identity.map (·.publicKey)).getD "", offers⟩)
  pure (.keySync chan status policy identity)

/-- The keys that the requester offers in return. -/
def acceptKeys (chan : ChannelRef) (requester : String) (policy : ChannelPolicy)
    (identity : Option KeypairFile) (keySync : KeySync) : Session Unit := do
  bailIf (keySync.identity ≠ requester)
    ["channel-key response identity does not match requester"]
  bailIf (policy.visibility = .private_ ∧ policyAllowsRead policy keySync.identity = false)
    ["channel-key sender is not a channel member"]
  validateKeyOffers keySync
  match identity with
  | some identity => do
    let _ ← Proc.call .acceptKeyOffers (acceptKeyOffers chan.fullName identity keySync.offers)
    pure ()
  | none => bailIf (keySync.offers ≠ []) ["received channel keys for a public channel"]

/-! ## The messages -/

omit [Primitives] in
/-- The hash of a bucket in an inventory; of two with one index, the
later. -/
def chunkHash (chunks : List ChunkSummary) (index : ℕ) : Option String :=
  (chunks.reverse.find? (·.index == index)).map (·.hash)

omit [Primitives] in
/-- The buckets in which two inventories differ, in order. -/
def differingChunks (server client : List ChunkSummary) : List ℕ :=
  (((server ++ client).map ChunkSummary.index).toFinset.filter fun index =>
    chunkHash server index ≠ chunkHash client index).sort

omit [Primitives] in
/-- An inventory names no bucket twice, and every hash is of 32 bytes. -/
def checkSummaries (chunks : List ChunkSummary) : Except Error Unit :=
  bailIf (¬ (chunks.map ChunkSummary.index).Nodup ∨
      chunks.any (fun chunk => decide ((hexDecode chunk.hash).map List.length ≠ some 32)) = true)
    ["invalid chunk summary"]

/-- The ids of the buckets in which the client's inventory and the
server's differ. -/
def diffChunks (chan : ChannelRef) (clientChunks : List ChunkSummary) : Session Await := do
  -- of the log as it is now, the client's as it was when it connected
  let summaries ← Proc.call .chunkSummaries (chunkSummaries chan)
  checkSummaries clientChunks
  let differing := differingChunks summaries clientChunks
  let serverChunks ← readChunks chan differing
  Proc.emit (.chunkDiff ⟨"chunk_diff", serverChunks, differing⟩)
  pure (.chunkIds chan serverChunks differing)

omit [Primitives] in
/-- The check of one id in a batch. -/
def checkChunkId (index : ℕ) (id : String) : Except Error Unit := do
  let bytes ← orBail ["invalid message id in chunk inventory"] (hexDecode id)
  bailIf (bytes.length ≠ 32 ∨ bucketOf bytes ≠ index)
    [s!"message id does not belong to chunk {index}"]

omit [Primitives] in
/-- The checks of a batch: the buckets asked for, once each, and in each
ids of that bucket only. -/
def checkBatch (differing : List ℕ) (chunks : List ChunkIds) : Except Error Unit := do
  bailIf ((chunks.map ChunkIds.index).toFinset ≠ differing.toFinset ∨
      ¬ (chunks.map ChunkIds.index).Nodup)
    ["peer returned unexpected chunk inventory"]
  chunks.forM fun chunk => chunk.ids.forM (checkChunkId chunk.index)

omit [Primitives] in
/-- The ids in the buckets of a batch. -/
def inventory (chunks : List ChunkIds) : Finset String := (chunks.flatMap ChunkIds.ids).toFinset

/-- The end of the upload loop, or another turn of it. -/
def finishUpload (chan : ChannelRef) (sent : ℕ) (wanted : Finset String) (received : ℕ) :
    Session Await :=
  if wanted = ∅ then do
    Proc.emit (.response (.complete sent received))
    pure .done
  else pure (.upload chan sent wanted received)

/-- Asks for what the client has more, and sends what it lacks. -/
def exchangeIds (chan : ChannelRef) (serverChunks : List ChunkIds) (differing : List ℕ)
    (batch : ChunkBatch) (ambient : Ambient) : Session Await := do
  checkBatch differing batch.chunks
  let clientIds := inventory batch.chunks
  let serverIds := inventory serverChunks
  bailIf (clientIds.card > maxDifferingIds ∨ serverIds.card > maxDifferingIds)
    [s!"differing inventory exceeds {maxDifferingIds} ids"]
  -- two hash sets, in whatever order they iterate
  let wantedFromClient := ambient.wantOrder.list (clientIds \ serverIds)
  let toClient := ambient.sendOrder.list (serverIds \ clientIds)
  Proc.emit (.want ⟨"want", wantedFromClient⟩)
  sendMessages chan toClient
  finishUpload chan toClient.length wantedFromClient.toFinset 0

/-- One upload: an envelope that was asked for and not yet received. -/
def acceptUpload (chan : ChannelRef) (sent : ℕ) (wanted : Finset String) (received : ℕ)
    (env : Envelope) : Session Await := do
  -- each id once: what was received is no longer wanted
  bailIf (env.id ∉ wanted) [s!"client uploaded unrequested envelope {env.id}"]
  bailIf (env.channel ≠ chan.fullName)
    [s!"uploaded envelope {env.id} belongs to {env.channel}"]
  context s!"verify uploaded envelope {env.id}" env.verify
  let _ ← Proc.call .appendMessage (appendMessage chan env)
  finishUpload chan sent (wanted.erase env.id) (received + 1)

/-! ## The session -/

/-- From the status packet to the keys. -/
def reconcile (chan : ChannelRef) (status : StatusMessage) (nonces : ℕ → Bytes) :
    Session Await := do
  let localPolicy ← admitRequester chan status.requester
  takePolicy chan localPolicy status.policyEvents
  sendPolicy chan status.requester
  takeModeration chan status.moderationEvents
  sendModeration chan
  sendKeys chan status nonces

/-- From one point of waiting to the next. -/
def resume : Await → Incoming × Ambient → Session Await
  | .status challenge, (i, ambient) => do
    let status ← readStatus i
    let chan ← checkStatus challenge status ambient.now ambient.now'
    reconcile chan status ambient.nonces
  | .keySync chan status policy identity, (i, _) => do
    match ← (readKeySync i : Except Error _) with
    | none => pure (.keySync chan status policy identity)
    | some keySync => do
      acceptKeys chan status.requester policy identity keySync
      diffChunks chan status.chunks
  | .chunkIds chan serverChunks differing, (i, ambient) => do
    match ← (readChunkBatch i : Except Error _) with
    | none => pure (.chunkIds chan serverChunks differing)
    | some batch => exchangeIds chan serverChunks differing batch ambient
  | .upload chan sent wanted received, (i, _) => do
    match ← (readUpload i : Except Error _) with
    | none => pure (.upload chan sent wanted received)
    | some env => acceptUpload chan sent wanted received env
  | .done, _ => pure .done

end Responder

end Embernet
