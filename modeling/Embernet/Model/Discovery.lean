import Embernet.Model.Frames
import Embernet.Model.MessageStore
import Embernet.Model.Peers
/-!
# Discovery — which channels a peer names

`discover_peer_channels` of `sync.rs` and the handlers of `server.rs`. A
client fetches a challenge for `/status`, signs it as it signs one for
`/sync`, and is told the channels its key may read; without a key it is
told the public ones. A challenge is consumed by the request that passes.
-/

set_option autoImplicit false

namespace Embernet

open Primitives

/-! ## The client -/

/-- The headers of a request for `/status`. -/
structure DiscoveryRequest where
  publicKey : String
  timestamp : Int64
  signature : String
  nonce : String
  deriving DecidableEq

/-- The body of a `/status` response. -/
structure PeerStatus where
  ok : Bool
  channels : List String
  deriving DecidableEq

/-- `MAX_DISCOVERED_CHANNELS`. -/
def maxDiscoveredChannels : ℕ := 10000

/-- What `discover_peer_channels` makes of a response. -/
def discoveredChannels (status : PeerStatus) : Except Error (List String) := do
  bailIf (status.ok = false) ["peer reported an unhealthy status"]
  bailIf (status.channels.length > maxDiscoveredChannels)
    [s!"peer advertises more than {maxDiscoveredChannels} channels"]
  pure ((status.channels.filter validChannel).insertionSort (· ≤ ·)).dedup

section Client

variable [Primitives] [Urls]

/-- What `discover_peer_channels` checks of an address before it connects. -/
def discoveryUrl (peerUrl : String) : Except Error Urls.Url := do
  let url ← orBail ["invalid peer URL for channel discovery"] (Urls.parse peerUrl)
  let scheme := Urls.scheme url
  let httpScheme ← if scheme = "ws" then pure "http" else if scheme = "wss" then pure "https"
    else bail s!"unsupported peer URL scheme {scheme}"
  let url ← orBail ["could not convert peer URL to HTTP"] (Urls.setScheme httpScheme url)
  pure (Urls.withoutQuery (Urls.setPath "/status" url))

/-- The request that answers a challenge, at the clock readings `now` and
`now'` of the check and `timestamp` of the request. -/
def discoveryRequest (peers : JsonFile PeerConfig) (peerUrl : String) (identity : KeypairFile)
    (challenge : AuthChallenge) (now now' timestamp : Int64) : Except Error DiscoveryRequest := do
  let _ ← discoveryUrl peerUrl
  let expected ← expectedPeerKey peers peerUrl
  verifyAuthChallenge challenge "/status" expected now now'
  let signature ← identity.signBytes
    (discoveryAuthPayload timestamp challenge.nonce challenge.responder)
  pure { publicKey := identity.publicKey, timestamp, signature, nonce := challenge.nonce }

/-- **What a client signs for a discovery**: the nonce and the key of a
challenge it has checked. -/
theorem discoveryRequest_ok {peers : JsonFile PeerConfig} {peerUrl : String}
    {identity : KeypairFile} {challenge : AuthChallenge} {now now' timestamp : Int64}
    {request : DiscoveryRequest}
    (h : discoveryRequest peers peerUrl identity challenge now now' timestamp = .ok request) :
    ∃ expected, expectedPeerKey peers peerUrl = .ok expected ∧
      verifyAuthChallenge challenge "/status" expected now now' = .ok () ∧
      identity.signBytes (discoveryAuthPayload timestamp challenge.nonce challenge.responder) =
        .ok request.signature ∧
      request.publicKey = identity.publicKey ∧ request.timestamp = timestamp ∧
      request.nonce = challenge.nonce := by
  obtain ⟨_, -, h⟩ := bind_eq_ok.1 h
  obtain ⟨expected, hexpected, h⟩ := bind_eq_ok.1 h
  obtain ⟨_, hverify, h⟩ := bind_eq_ok.1 h
  obtain ⟨signature, hsign, h⟩ := bind_eq_ok.1 h
  cases h
  exact ⟨expected, hexpected, hverify, hsign, rfl, rfl, rfl⟩

end Client

/-! ## The server -/

/-- What the handlers share: the node's identity and the challenges that
were not consumed yet, with their expiry. -/
structure AppState where
  identity : KeypairFile
  discoveryChallenges : Std.ExtTreeMap String Int64 := ∅

/-- A response, with the code of one that is not 200. -/
inductive Response (α : Type)
  | ok (body : α)
  | error (code : ℕ) (message : Error)

/-- The four headers of a request, as each reads: it may be missing, or
not be of its type. -/
structure DiscoveryHeaders where
  key : Option (Except Error String)
  timestamp : Option (Except Error Int64)
  signature : Option (Except Error String)
  nonce : Option (Except Error String)

/-- `MAX_DISCOVERY_CHALLENGES`. -/
def maxDiscoveryChallenges : ℕ := 10000

section Server

variable [Primitives]

/-- `GET /challenge`, with 32 random bytes, at the clock readings `now` of
the challenge and `now'` of the table. -/
def challengeHandler (random : Bytes) (now now' : Int64) (state : AppState) :
    Response AuthChallenge × AppState :=
  match makeAuthChallenge state.identity "/status" random now with
  | .error e => (.error 500 e, state)
  | .ok challenge =>
    -- what has expired makes room first
    let challenges := state.discoveryChallenges.filter fun _ expiry => decide (expiry ≥ now')
    if challenges.size ≥ maxDiscoveryChallenges then
      (.error 429 ["too many active challenges"], { state with discoveryChallenges := challenges })
    else
      (.ok challenge,
        { state with discoveryChallenges := challenges.insert challenge.nonce challenge.expires })

/-- `discovery_requester`. -/
def discoveryRequester (headers : DiscoveryHeaders) (now now' : Int64) (state : AppState) :
    Except Error (Option String × AppState) :=
  if headers.key.isNone ∧ headers.timestamp.isNone ∧ headers.signature.isNone ∧
      headers.nonce.isNone then
    pure (none, state)
  else do
    let key ← (← orBail ["missing discovery public key"] headers.key)
    let timestamp ← (← orBail ["missing discovery timestamp"] headers.timestamp)
    let signature ← (← orBail ["missing discovery signature"] headers.signature)
    let nonce ← (← orBail ["missing discovery nonce"] headers.nonce)
    bailIf ((now - timestamp).abs > 60) ["stale discovery signature"]
    let expires ← orBail ["unknown or already consumed discovery challenge"]
      state.discoveryChallenges[nonce]?
    bailIf (expires < now') ["expired discovery challenge"]
    context "invalid discovery signature" (verifyBytes key signature
      (discoveryAuthPayload timestamp nonce state.identity.publicKey))
    -- only here is the challenge consumed: a refused request leaves it
    pure (some key, { state with discoveryChallenges := state.discoveryChallenges.erase nonce })

/-- **Whose request it is**: nobody's, without any of the headers, or that
of the key that signed a challenge of this node which is not consumed. -/
theorem discoveryRequester_ok {headers : DiscoveryHeaders} {now now' : Int64}
    {state state' : AppState} {requester : Option String} :
    discoveryRequester headers now now' state = .ok (requester, state') ↔
      (headers.key = none ∧ headers.timestamp = none ∧ headers.signature = none ∧
        headers.nonce = none ∧ requester = none ∧ state' = state) ∨
      ∃ key timestamp signature nonce expires, headers.key = some (.ok key) ∧
        headers.timestamp = some (.ok timestamp) ∧ headers.signature = some (.ok signature) ∧
        headers.nonce = some (.ok nonce) ∧ ¬ (now - timestamp).abs > 60 ∧
        state.discoveryChallenges[nonce]? = some expires ∧ ¬ expires < now' ∧
        verifyBytes key signature
          (discoveryAuthPayload timestamp nonce state.identity.publicKey) = .ok () ∧
        requester = some key ∧
        state' = { state with discoveryChallenges := state.discoveryChallenges.erase nonce } := by
  rw [discoveryRequester]
  split
  · rename_i hnone
    simp only [Option.isNone_iff_eq_none] at hnone
    obtain ⟨hkey, htimestamp, hsignature, hnonce⟩ := hnone
    simp only [hkey, htimestamp, hsignature, hnonce, pure_eq_ok, Prod.mk.injEq]
    constructor
    · rintro ⟨rfl, rfl⟩
      exact .inl (by simp)
    · rintro (⟨-, -, -, -, rfl, rfl⟩ | ⟨_, _, _, _, _, hkey, -⟩)
      · exact ⟨rfl, rfl⟩
      · cases hkey
  · rename_i hsome
    simp only [bind_eq_ok, orBail_eq_ok, bailIf_eq_ok, context_eq_ok, pure_eq_ok, Prod.mk.injEq]
    constructor
    · rintro ⟨_, hkey, key, rfl, _, htimestamp, timestamp, rfl, _, hsignature, signature, rfl, _,
        hnonce, nonce, rfl, _, hstale, expires, hexpires, _, hexpired, _, hverify, rfl, rfl⟩
      exact .inr ⟨key, timestamp, signature, nonce, expires, hkey, htimestamp, hsignature, hnonce,
        hstale, hexpires, hexpired, hverify, rfl, rfl⟩
    · rintro (⟨hkey, htimestamp, hsignature, hnonce, -⟩ | ⟨key, timestamp, signature, nonce,
        expires, hkey, htimestamp, hsignature, hnonce, hstale, hexpires, hexpired, hverify, rfl,
        rfl⟩)
      · exact absurd ⟨by rw [hkey]; rfl, by rw [htimestamp]; rfl, by rw [hsignature]; rfl,
          by rw [hnonce]; rfl⟩ hsome
      · exact ⟨_, hkey, key, rfl, _, htimestamp, timestamp, rfl, _, hsignature, signature, rfl, _,
          hnonce, nonce, rfl, (), hstale, expires, hexpires, (), hexpired, (), hverify, rfl, rfl⟩

/-- `GET /status`. -/
def statusHandler (d : Datadir) (headers : DiscoveryHeaders) (now now' : Int64)
    (state : AppState) : Response PeerStatus × AppState :=
  match discoveryRequester headers now now' state with
  | .error e => (.error 401 e, state)
  | .ok (requester, state) =>
    let channels := match listReadableChannels requester d with
      | .ok channels => channels
      | .error _ => []
    (.ok { ok := true, channels }, state)

end Server

end Embernet
