import Embernet.Model.Discovery
import Embernet.Model.Initiator
/-!
# Automatic synchronization — one pass over the saved peers

`sync_all_from_peer`, with the sessions it runs as parameters, and then
`auto_sync_worker` of `tui.rs` with the sessions step by step. A pass
lists the peers once. For each it discovers the channels and runs a
session on every one, and whatever fails in one peer ends only that peer.
The configuration is read again for every challenge, and another process
may have changed it.
-/

set_option autoImplicit false

namespace Embernet

/-- What a peer's turn came to. -/
structure PeerSyncSummary where
  channels : ℕ
  received : ℕ
  deriving DecidableEq

section SyncAll

variable {σ : Type}

/-- The loop of `sync_all_from_peer`, over the channels that are left, with
what was received. -/
def syncChannels (createChannel : ChannelRef → Op σ Error Unit)
    (syncFromPeer : String → Op σ Error ℕ) : List String → ℕ → Op σ Error ℕ
  | [], received => pure received
  | channel :: channels, received => do
    let chan ← ChannelRef.parse channel
    -- made first, and kept also where the session then fails
    createChannel chan
    let more ← syncFromPeer channel
    syncChannels createChannel syncFromPeer channels (received + more)

/-- `sync_all_from_peer`, with what it calls. -/
def syncAllFromPeer (discoverPeerChannels : Op σ Error (List String))
    (createChannel : ChannelRef → Op σ Error Unit) (syncFromPeer : String → Op σ Error ℕ) :
    Op σ Error PeerSyncSummary := do
  let channels ← discoverPeerChannels
  let received ← syncChannels createChannel syncFromPeer channels 0
  pure { channels := channels.length, received }

end SyncAll

/-- Where a pass is. -/
inductive Pass
  /-- Before `list_peers`. -/
  | listing
  /-- The peers that are left, none of them under way. -/
  | peers (rest : List String)
  /-- `discover_peer_channels`, waiting for the challenge. -/
  | challenge (url : String) (identity : KeypairFile) (rest : List String)
  /-- `discover_peer_channels`, waiting for the status. -/
  | status (url : String) (rest : List String)
  /-- The channels of a peer that are left, none of them under way. -/
  | channels (url : String) (channels rest : List String)
  /-- `sync_from_peer`, of one channel. -/
  | session (url : String) (await : Initiator.Await) (channels rest : List String)

/-- The peers that are left when the one under way is given up. -/
def Pass.others : Pass → Option (List String)
  | listing | peers [] => none
  | peers (_ :: rest) | challenge _ _ rest | status _ rest | channels _ _ rest
  | session _ _ _ rest => some rest

/-- A challenge that passed the check: who signed it, and the key that was
expected. -/
structure Accepted where
  url : String
  responder : String
  expected : Option String

/-- A pass and the configuration it reads, with the configurations there
were since the listing and the challenges that were accepted. -/
structure Worker where
  peers : JsonFile PeerConfig
  pass : Pass := .listing
  seen : List (JsonFile PeerConfig) := []
  accepted : List Accepted := []

/-- What happens beside a pass, and in it. -/
inductive WorkerEvent
  /-- Another process adds or removes a peer. -/
  | call (call : PeerCall)
  /-- The pass accepts a challenge from a responder of the address. -/
  | accept (url responder : String)
  /-- It goes on, with no challenge to check. -/
  | proceed

section AutoSync

variable [Primitives] [Urls]

/-- One step of a pass, or of another process beside it. What comes over
the network is arbitrary, and so is what others write to the store. -/
inductive WorkerStep : Worker → WorkerEvent → Worker → Prop
  | call {w : Worker} {call : PeerCall} {peers' : JsonFile PeerConfig} :
      PeerStep w.peers call peers' →
      WorkerStep w (.call call) { w with peers := peers', seen := w.seen ++ [peers'] }
  | list {w : Worker} {records : List PeerRecord} :
      w.pass = .listing → listPeerRecords w.peers = .ok records →
      WorkerStep w .proceed
        { w with pass := .peers (records.map (·.url)), seen := [w.peers] }
  /-- An error of `list_peers` ends the pass. -/
  | unlisted {w : Worker} {e : Error} :
      w.pass = .listing → listPeerRecords w.peers = .error e →
      WorkerStep w .proceed { w with pass := .peers [], seen := [w.peers] }
  | connect {w : Worker} {url : String} {rest : List String} {status : Urls.Url}
      {identity : KeypairFile} {d : Datadir} :
      w.pass = .peers (url :: rest) → discoveryUrl url = .ok status →
      loadIdentity d = .ok identity →
      WorkerStep w .proceed { w with pass := .challenge url identity rest }
  | discover {w : Worker} {url : String} {identity : KeypairFile} {rest : List String}
      {challenge : AuthChallenge} {now now' timestamp : Int64} {expected : Option String}
      {request : DiscoveryRequest} :
      w.pass = .challenge url identity rest → expectedPeerKey w.peers url = .ok expected →
      discoveryRequest w.peers url identity challenge now now' timestamp = .ok request →
      WorkerStep w (.accept url challenge.responder)
        { w with
          pass := .status url rest
          accepted := w.accepted ++ [⟨url, challenge.responder, expected⟩] }
  | status {w : Worker} {url : String} {rest channels : List String} {status : PeerStatus} :
      w.pass = .status url rest → discoveredChannels status = .ok channels →
      WorkerStep w .proceed { w with pass := .channels url channels rest }
  /-- `create_channel`, and what the session reads before it connects. -/
  | start {w : Worker} {url channel : String} {channels rest : List String} {chan : ChannelRef}
      {d d' : Datadir} {authTs : Int64} {await : Initiator.Await} :
      w.pass = .channels url (channel :: channels) rest → ChannelRef.parse channel = .ok chan →
      (createChannel chan).exec d = (.ok (), d') →
      (Initiator.start channel authTs).Ends (.ok await) →
      WorkerStep w .proceed { w with pass := .session url await channels rest }
  | answer {w : Worker} {url : String} {channels rest : List String} {chan : ChannelRef}
      {chunks : List ChunkSummary} {policyEvents : List PolicyEvent}
      {moderationEvents : List ModerationEvent} {identity : KeypairFile} {authTs : Int64}
      {i : Incoming} {given : Given} {challenge : AuthChallenge} {expected : Option String}
      {await : Initiator.Await} :
      w.pass = .session url
        (.challenge chan chunks policyEvents moderationEvents identity authTs) channels rest →
      Initiator.readChallenge i = .ok challenge → expectedPeerKey w.peers url = .ok expected →
      given.expected = .ok expected →
      (Initiator.resume (.challenge chan chunks policyEvents moderationEvents identity authTs)
        (i, given)).Ends (.ok await) →
      WorkerStep w (.accept url challenge.responder)
        { w with
          pass := .session url await channels rest
          accepted := w.accepted ++ [⟨url, challenge.responder, expected⟩] }
  | frame {w : Worker} {url : String} {channels rest : List String} {chan : ChannelRef}
      {identity : KeypairFile} {received : ℕ} {i : Incoming} {given : Given}
      {await : Initiator.Await} :
      w.pass = .session url (.frames chan identity received) channels rest →
      (Initiator.resume (.frames chan identity received) (i, given)).Ends (.ok await) →
      WorkerStep w .proceed { w with pass := .session url await channels rest }
  | complete {w : Worker} {url : String} {channels rest : List String} {received : ℕ} :
      w.pass = .session url (.done received) channels rest →
      WorkerStep w .proceed { w with pass := .channels url channels rest }
  | finish {w : Worker} {url : String} {rest : List String} :
      w.pass = .channels url [] rest →
      WorkerStep w .proceed { w with pass := .peers rest }
  /-- Any failure or timeout in one peer: `AutoSyncEvent::Failed`. -/
  | failed {w : Worker} {rest : List String} :
      w.pass.others = some rest → WorkerStep w .proceed { w with pass := .peers rest }

/-- **What an accepted challenge has passed**: the key that the
configuration, read after it came, expects of the address. -/
theorem accept_cases {w w' : Worker} {url responder : String}
    (hstep : WorkerStep w (.accept url responder) w') :
    ∃ expected pass, expectedPeerKey w.peers url = .ok expected ∧
      (∀ key ∈ expected, key = responder) ∧ w.pass ≠ .listing ∧ pass ≠ .listing ∧
      w' = { w with pass, accepted := w.accepted ++ [⟨url, responder, expected⟩] } := by
  cases hstep with
  | discover hpass hexpected hrequest =>
    obtain ⟨expected, hexpected', hverify, -⟩ := discoveryRequest_ok hrequest
    cases hexpected.symm.trans hexpected'
    refine ⟨_, _, hexpected, (verifyAuthChallenge_ok.1 hverify).2.2.2.1, ?_, ?_, rfl⟩
    · rw [hpass]
      nofun
    · nofun
  | answer hpass hchallenge hexpected hgiven hends =>
    obtain ⟨challenge, hread, hends⟩ := Proc.ends_bind hends
    obtain ⟨status, hanswer, -⟩ := Proc.ends_bind hends
    cases hchallenge.symm.trans (Proc.ends_except.1 hread)
    obtain ⟨expected, _, hexpected', hverify, -⟩ :=
      Initiator.answerChallenge_ok.1 (Proc.ends_except.1 hanswer)
    cases hgiven.symm.trans hexpected'
    refine ⟨_, _, hexpected, (verifyAuthChallenge_ok.1 hverify).2.2.2.1, ?_, ?_, rfl⟩
    · rw [hpass]
      nofun
    · nofun

end AutoSync

end Embernet
