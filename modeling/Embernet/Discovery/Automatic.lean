import Embernet.Discovery.Pins
import Embernet.Model.AutoSync
import Embernet.Model.Simulated
/-!
# Automatic synchronization — who a pass speaks to

A pass lists the saved peers once and reads their pins later, one at a
time. As long as the configuration still lists an address when its pin is
read, every responder the pass accepts is the pinned one. An address that
was removed in between has no pin, and to the pass that is no refusal:
it accepts whoever answers.
-/

set_option autoImplicit false

namespace Embernet

section Automatic

variable [Primitives] [Urls] {w w' : Worker} {event : WorkerEvent} {events : List WorkerEvent}
  {peers peers₀ : JsonFile PeerConfig} {value : String}

/-- The configuration lists the address that `value` spells, if it loads. -/
def StillListed (peers : JsonFile PeerConfig) (value : String) : Prop :=
  ∀ records url, listPeerRecords peers = .ok records → normalizePeerUrl value = .ok url →
    url ∈ records.map (·.url)

omit [Primitives] in
/-- No key is expected exactly of what is not listed. -/
theorem expectedPeerKey_none : expectedPeerKey peers value = .ok none ↔ ¬ StillListed peers value := by
  constructor
  · intro h hlisted
    obtain ⟨url, hurl, h'⟩ := bind_eq_ok.1 h
    obtain ⟨records, hlist, -⟩ := bind_eq_ok.1 h'
    exact SavedPeer.expectedPeerKey_ne
      ⟨url, hurl, records, hlist, entry_isSome.2 (hlisted records url hlist hurl)⟩ h
  · intro h
    simp only [StillListed, not_forall] at h
    obtain ⟨records, url, hlist, hurl, hmem⟩ := h
    have hentry : entry records url = none := by
      rwa [← entry_isSome, Bool.not_eq_true, Option.isSome_eq_false_iff, Option.isNone_iff_eq_none]
        at hmem
    rw [expectedPeerKey_eq hlist hurl, hentry]

/-- Where the pass reads a pin, the configuration still lists the
address. -/
def ListedWhenRead (w : Worker) : WorkerEvent → Prop
  | .accept url _ => StillListed w.peers url
  | _ => True

omit [Primitives] in
/-- Every responder that was accepted is the one that was expected, and at
some moment since the listing its key was pinned for the address. -/
def Pinned (w : Worker) : Prop :=
  ∀ a ∈ w.accepted, a.expected = some a.responder ∧
    ∃ peers ∈ w.seen, expectedPeerKey peers a.url = .ok (some a.responder)

/-- What a pass keeps to. -/
structure PassInv (w : Worker) : Prop where
  before : w.pass = .listing → w.accepted = []
  current : w.pass ≠ .listing → w.peers ∈ w.seen
  pinned : Pinned w

/-- **A step keeps to the pins**, where the address is listed when its pin
is read. -/
theorem passInv_step (hw : PassInv w) (hlisted : ListedWhenRead w event)
    (hstep : WorkerStep w event w') : PassInv w' := by
  match event with
  | .accept url responder =>
    obtain ⟨expected, pass, hexpected, hkey, hpass, hpass', rfl⟩ := accept_cases hstep
    obtain ⟨key, rfl⟩ : ∃ key, expected = some key := by
      refine Option.ne_none_iff_exists'.1 ?_
      rintro rfl
      exact expectedPeerKey_none.1 hexpected hlisted
    obtain rfl := hkey key rfl
    refine ⟨fun h => absurd h hpass', fun _ => hw.current hpass, fun a ha => ?_⟩
    rcases List.mem_append.1 ha with ha | ha
    · exact hw.pinned a ha
    · obtain rfl := List.mem_singleton.1 ha
      exact ⟨rfl, w.peers, hw.current hpass, hexpected⟩
  | .call call =>
    cases hstep with
    | call _ =>
      refine ⟨hw.before, fun _ => List.mem_append_right _ (List.mem_singleton_self _),
        fun a ha => ?_⟩
      obtain ⟨hexpected, peers, hpeers, hkey⟩ := hw.pinned a ha
      exact ⟨hexpected, peers, List.mem_append_left _ hpeers, hkey⟩
  | .proceed =>
    -- the listing, and then steps that leave the record as it is
    have hlisting {pass : Pass} (hpass : w.pass = .listing) (hpass' : pass ≠ .listing) :
        PassInv { w with pass, seen := [w.peers] } := by
      refine ⟨fun h => absurd h hpass', fun _ => List.mem_singleton_self _, fun a ha => ?_⟩
      have ha : a ∈ w.accepted := ha
      rw [hw.before hpass] at ha
      cases ha
    have hon {pass : Pass} (hpass : w.pass ≠ .listing) (hpass' : pass ≠ .listing) :
        PassInv { w with pass } :=
      ⟨fun h => absurd h hpass', fun _ => hw.current hpass, hw.pinned⟩
    cases hstep with
    | list hpass _ | unlisted hpass _ => exact hlisting hpass nofun
    | connect hpass _ _ | status hpass _ | start hpass _ _ _ | frame hpass _ | complete hpass
    | finish hpass => exact hon (by rw [hpass]; nofun) nofun
    | failed hothers =>
      refine hon (fun hpass => ?_) nofun
      rw [hpass] at hothers
      cases hothers

/-- **A pass is pinned exactly as far as it is listed.** Along any steps of
a pass and of other processes, every challenge the pass accepts is from a
responder that was pinned for the address since it was listed, and none is
accepted without a pin, exactly if the configuration still lists the address
whenever the pass reads its pin. -/
theorem auto_sync_pinned_iff (hrun : Run WorkerStep { peers := peers₀ } events w) :
    Pinned w ↔ Run (Under ListedWhenRead WorkerStep) { peers := peers₀ } events w := by
  constructor
  · intro hpinned
    have hexpected : ∀ a ∈ w.accepted, a.expected ≠ none := by
      intro a ha hnone
      rw [(hpinned a ha).1] at hnone
      cases hnone
    clear hpinned
    induction hrun with
    | nil => exact .nil _
    | @snoc w w' events event hrun hstep ih =>
      match event with
      | .accept url responder =>
        obtain ⟨expected, pass, hread, -, -, -, rfl⟩ := accept_cases hstep
        have hnone : expected ≠ none := hexpected ⟨url, responder, expected⟩
          (List.mem_append_right _ (List.mem_singleton_self _))
        have hlisted : StillListed w.peers url := by
          by_contra hlost
          rw [expectedPeerKey_none.2 hlost] at hread
          cases hread
          exact hnone rfl
        exact .snoc (ih fun a ha => hexpected a (List.mem_append_left _ ha)) ⟨hlisted, hstep⟩
      | .call _ | .proceed =>
        have haccepted : w'.accepted = w.accepted := by
          cases hstep <;> rfl
        exact .snoc (ih (haccepted ▸ hexpected)) ⟨trivial, hstep⟩
  · intro hunder
    refine (hunder.invariant (I := PassInv) (fun _ _ _ hw h => passInv_step hw h.1 h.2) ?_).pinned
    exact ⟨fun _ => rfl, fun h => absurd rfl h, fun a ha => nomatch ha⟩

end Automatic

/-! ### One pass over one peer -/

section OnePeer

open Simulated

attribute [local instance] simulated hostUrls

/-- What a responder signs for a discovery. -/
def discoveryChallenge (n : UInt8) : AuthChallenge where
  msgType := "challenge"
  nonce := hexEncode (List.replicate 32 0)
  responder := (identity n).publicKey
  expires := 60
  signature := signatureOf n (responderChallengePayload "/status" (hexEncode (List.replicate 32 0))
    (identity n).publicKey 60)

/-- What the client answers it with. -/
def discoveryAnswer (n : UInt8) : DiscoveryRequest where
  publicKey := (identity 3).publicKey
  timestamp := 0
  signature := signatureOf 3
    (discoveryAuthPayload 0 (discoveryChallenge n).nonce (discoveryChallenge n).responder)
  nonce := (discoveryChallenge n).nonce

/-- It is accepted where its responder is expected, or nobody is. -/
theorem discoveryRequest_discoveryChallenge {n : UInt8} {peers : JsonFile PeerConfig}
    {expected : Option String} (hexpected : expectedPeerKey peers "ws://peer/sync" = .ok expected)
    (hkey : ∀ key ∈ expected, key = (identity n).publicKey) :
    discoveryRequest peers "ws://peer/sync" (identity 3) (discoveryChallenge n) 0 0 0 =
      .ok (discoveryAnswer n) := by
  have hurl : discoveryUrl "ws://peer/sync" = .ok "/status" := rfl
  have hverify : verifyAuthChallenge (discoveryChallenge n) "/status" expected 0 0 = .ok () := by
    have hexpires : ¬ ((60 : Int64) < 0 ∨ (60 : Int64) > 0 + 60) := by decide
    refine verifyAuthChallenge_ok.2 ⟨rfl, hexpires, ⟨_, hexDecode_hexEncode _, by simp⟩, hkey, ?_⟩
    exact verifyBytes_signatureOf n _
  simp only [discoveryRequest, bind_eq_ok]
  exact ⟨_, hurl, _, hexpected, (), hverify, _, signBytes_identity 3 _, rfl⟩

/-- The pass lists the pinned peer. -/
theorem step_list : WorkerStep { peers := pinnedPeers } .proceed
    { peers := pinnedPeers, pass := .peers ["ws://peer/sync"], seen := [pinnedPeers] } := by
  have hlist : listPeerRecords pinnedPeers = .ok [⟨"ws://peer/sync", some pinnedKey⟩] := by
    decide +kernel
  exact WorkerStep.list (w := { peers := pinnedPeers }) rfl hlist

/-- And goes on to ask it for its channels. -/
theorem step_connect {peers : JsonFile PeerConfig} {seen : List (JsonFile PeerConfig)} :
    WorkerStep { peers, pass := .peers ["ws://peer/sync"], seen } .proceed
      { peers, pass := .challenge "ws://peer/sync" (identity 3) [], seen } := by
  have hurl : discoveryUrl "ws://peer/sync" = .ok "/status" := rfl
  have hidentity : loadIdentity { identity := .value (identity 3) } = .ok (identity 3) := rfl
  exact .connect rfl hurl hidentity

/-- The pass takes in what answers for the peer it discovers. -/
theorem step_discover {n : UInt8} {peers : JsonFile PeerConfig}
    {seen : List (JsonFile PeerConfig)} {expected : Option String}
    (hexpected : expectedPeerKey peers "ws://peer/sync" = .ok expected)
    (hkey : ∀ key ∈ expected, key = (identity n).publicKey) :
    WorkerStep { peers, pass := .challenge "ws://peer/sync" (identity 3) [], seen }
      (.accept "ws://peer/sync" (identity n).publicKey)
      { peers, pass := .status "ws://peer/sync" [], seen,
        accepted := [⟨"ws://peer/sync", (identity n).publicKey, expected⟩] } := by
  let w : Worker := { peers, pass := .challenge "ws://peer/sync" (identity 3) [], seen }
  exact WorkerStep.discover (w := w) rfl hexpected
    (discoveryRequest_discoveryChallenge hexpected hkey)

/-- The law for a pass that nobody disturbs. -/
theorem auto_sync_pinned_undisturbed : ∃ events w,
    Run WorkerStep { peers := pinnedPeers } events w ∧ w.accepted ≠ [] ∧ Pinned w := by
  have hexpected : expectedPeerKey pinnedPeers "ws://peer/sync" =
      .ok (some (identity 1).publicKey) := by
    decide +kernel
  have haccept := @step_discover 1 _ [pinnedPeers] _ hexpected
    fun key hkey => (Option.some.inj hkey).symm
  have hlisted : StillListed pinnedPeers "ws://peer/sync" := by
    by_contra hlost
    rw [expectedPeerKey_none.2 hlost] at hexpected
    cases hexpected
  have hrun := (((Run.nil _).snoc step_list).snoc step_connect).snoc haccept
  refine ⟨_, _, hrun, by simp, (auto_sync_pinned_iff hrun).2 ?_⟩
  exact .snoc (.snoc (.snoc (.nil _) ⟨trivial, step_list⟩) ⟨trivial, step_connect⟩)
    ⟨hlisted, haccept⟩

/-- **A peer removed after it was listed is not refused.** The pass reads
no pin for it, and accepts a responder whose key was never pinned. -/
theorem auto_sync_unpinned : ∃ events w,
    Run WorkerStep { peers := pinnedPeers } events w ∧
      w.accepted = [⟨"ws://peer/sync", (identity 4).publicKey, none⟩] ∧ ¬ Pinned w := by
  have hremove : PeerStep pinnedPeers (.remove "ws://peer/sync" (.ok true))
      (.value { version := 2, peers := [] }) := by
    change (removePeer _).exec _ = _
    decide +kernel
  have hexpected : expectedPeerKey (.value { version := 2, peers := [] }) "ws://peer/sync" =
      .ok none := by
    decide +kernel
  have hrun := ((Run.nil _).snoc step_list).snoc step_connect |>.snoc (.call hremove)
  refine ⟨_, _, hrun.snoc (@step_discover 4 _ _ _ hexpected nofun), rfl, ?_⟩
  intro hpinned
  have := (hpinned _ (List.mem_singleton_self _)).1
  cases this

end OnePeer

end Embernet
