import Embernet.Lib.Wrapping
import Mathlib.Algebra.Order.Group.Abs
import Embernet.Model.Discovery
import Embernet.Model.Responder
import Embernet.Model.Simulated
/-!
# Clocks — two parties, two clocks

A signed request carries the time of the one who signed it, and a challenge
the time at which it runs out. Each party compares these with its own
clock. The comparisons are made in 64-bit integers, so a timestamp far
enough from the clock comes out on the accepting side; and the client
admits no challenge that runs out later than a minute after its own now,
which is every challenge of a server whose clock is ahead of its own.
-/

set_option autoImplicit false

namespace Embernet

open Primitives Responder

/-! ## Freshness -/

/-- The staleness test of both requests. -/
def Stale (now ts : Int64) : Prop := (now - ts).abs > 60

theorem toInt_sixty : (60 : Int64).toInt = 60 := rfl

theorem not_stale_of_abs_le {now ts : Int64} (h : |now.toInt - ts.toInt| ≤ 60) :
    ¬ Stale now ts := by
  have hsub := Wrapping.toInt_sub_of_abs_lt now ts (by omega)
  rw [Stale, gt_iff_lt, Int64.not_lt, Int64.le_iff_toInt_le, toInt_sixty, Wrapping.toInt_abs, hsub]
  split <;> omega

/-- **What the test lets pass**: what is fresh, what is earlier by `2 ^ 63`
exactly, and what is earlier by so much more that the difference comes
round. -/
theorem not_stale_iff {now ts : Int64} (hnow : 0 ≤ now) :
    ¬ Stale now ts ↔ |now.toInt - ts.toInt| ≤ 60 ∨ now.toInt - ts.toInt = 2 ^ 63 ∨
      2 ^ 64 - 60 ≤ now.toInt - ts.toInt := by
  have hnow' : 0 ≤ now.toInt := Int64.le_iff_toInt_le.1 hnow
  have hlt := now.toInt_lt
  have hts := ts.toInt_lt
  have hts' := ts.le_toInt
  rw [Stale, gt_iff_lt, Int64.not_lt, Int64.le_iff_toInt_le, toInt_sixty, Wrapping.toInt_abs,
    Wrapping.toInt_sub_of_nonneg now ts hnow']
  split <;> split <;> simp only [abs_le] <;> omega

section Freshness

variable [Primitives] {now ts : Int64}

/-- What is claimed of the test: a request that is taken is fresh by the
exact distance, and nothing overflows in between. -/
structure ExactlyFresh (now ts : Int64) : Prop where
  sync : ∀ challenge status now' chan, status.authTs = ts →
    checkStatus challenge status now now' = .ok chan → |now.toInt - ts.toInt| ≤ 60
  discovery : ∀ headers now' state answer, headers.timestamp = some (.ok ts) →
    discoveryRequester headers now now' state = .ok answer → |now.toInt - ts.toInt| ≤ 60
  difference : (now - ts).toInt = now.toInt - ts.toInt
  absolute : (now - ts).abs.toInt = |(now - ts).toInt|

/-- **The staleness test is exact for every timestamp that is earlier than
the clock by less than `2 ^ 63`**, and for no other. -/
theorem exactly_fresh_iff (hnow : 0 ≤ now) :
    ExactlyFresh now ts ↔ now.toInt - ts.toInt < 2 ^ 63 := by
  have hnow' : 0 ≤ now.toInt := Int64.le_iff_toInt_le.1 hnow
  have hts := ts.toInt_lt
  have hsub := Wrapping.toInt_sub_of_nonneg now ts hnow'
  constructor
  · intro h
    have hdifference := h.difference
    rw [hsub] at hdifference
    split at hdifference <;> omega
  · intro hlt
    rw [if_pos hlt] at hsub
    have hfresh (hnot : ¬ Stale now ts) : |now.toInt - ts.toInt| ≤ 60 := by
      rcases (not_stale_iff hnow).1 hnot with hfresh | hmin | hround
      · exact hfresh
      · omega
      · omega
    refine ⟨?_, ?_, hsub, ?_⟩
    · rintro challenge status now' chan rfl hcheck
      exact hfresh (checkStatus_ok.1 hcheck).2.1
    · rintro headers now' state ⟨requester, state'⟩ htimestamp hanswer
      rcases discoveryRequester_ok.1 hanswer with
        ⟨-, hnone, -⟩ | ⟨_, timestamp, _, _, _, -, htimestamp', -, -, hnot, -⟩
      · cases htimestamp.symm.trans hnone
      · cases htimestamp.symm.trans htimestamp'
        exact hfresh hnot
    · rw [Wrapping.toInt_abs, hsub]
      split <;> omega

end Freshness

section Wrapped

open Simulated

attribute [local instance] simulated

/-- The earliest timestamp there is. -/
def earliest : Int64 := Int64.minValue

/-- A challenge of a server. -/
def anyChallenge : AuthChallenge where
  msgType := "challenge"
  nonce := "nonce"
  responder := (identity 4).publicKey
  expires := 60
  signature := ""

/-- A client's packet with that timestamp. -/
def earliestStatus : StatusMessage where
  msgType := "status"
  version := syncVersion
  channel := general.fullName
  requester := (identity 3).publicKey
  authTs := earliest
  authSig := signatureOf 3
    (syncAuthPayload earliest general.fullName anyChallenge.nonce anyChallenge.responder)
  policyEvents := []
  moderationEvents := []
  chunks := []

/-- And its request for the channels. -/
def earliestHeaders : DiscoveryHeaders where
  key := some (.ok (identity 3).publicKey)
  timestamp := some (.ok earliest)
  signature := some (.ok (signatureOf 3
    (discoveryAuthPayload earliest anyChallenge.nonce (identity 4).publicKey)))
  nonce := some (.ok anyChallenge.nonce)

/-- The server, with the challenge in its table. -/
def challengingState : AppState where
  identity := identity 4
  discoveryChallenges := Std.ExtTreeMap.insert ∅ anyChallenge.nonce anyChallenge.expires

/-- **The earliest timestamp is taken for fresh**, by both requests. -/
theorem earliest_timestamp_accepted :
    checkStatus anyChallenge earliestStatus 0 0 = .ok general ∧
      (∃ state, discoveryRequester earliestHeaders 0 0 challengingState =
        .ok (some (identity 3).publicKey, state)) ∧
      ¬ |(0 : Int64).toInt - earliest.toInt| ≤ 60 ∧ ¬ ExactlyFresh 0 earliest := by
  have hnot : ¬ Stale 0 earliest := by
    rw [not_stale_iff (by decide)]
    exact .inr (.inl rfl)
  have hdistance : ¬ |(0 : Int64).toInt - earliest.toInt| ≤ 60 := by decide
  have hcheck : checkStatus anyChallenge earliestStatus 0 0 = .ok general :=
    checkStatus_ok.2 ⟨⟨rfl, by decide, by decide, by decide,
      ChannelRef.parse_fullName general, verifyBytes_signatureOf 3 _, _, derivePolicy_nil⟩,
      hnot, by decide⟩
  have htable : challengingState.discoveryChallenges[anyChallenge.nonce]? =
      some anyChallenge.expires := by
    rw [challengingState, Std.ExtTreeMap.getElem?_insert_self]
  refine ⟨hcheck, ⟨_, discoveryRequester_ok.2 (.inr ⟨_, _, _, _, _, rfl, rfl, rfl, rfl, hnot,
    htable, by decide, verifyBytes_signatureOf 3 _, rfl, rfl⟩)⟩, hdistance, fun h => ?_⟩
  exact hdistance (h.sync _ _ _ _ rfl hcheck)

/-- The law on both sides of its bound: for the earliest timestamp the
difference wraps, and for the one after it it does not. -/
theorem exactly_fresh_iff_bound : ExactlyFresh 0 (earliest + 1) ∧ ¬ ExactlyFresh 0 earliest :=
  ⟨(exactly_fresh_iff (by decide)).2 (by decide),
    mt (exactly_fresh_iff (by decide)).1 (by decide)⟩

end Wrapped

/-! ## Tolerance -/

/-- The window a client leaves for the expiry of a challenge made at `t`,
on a clock `c` that is no more than a minute off. -/
theorem expiry_admitted_iff {t c : Int64} (hskew : |c.toInt - t.toInt| ≤ 60) :
    ¬ (t + 60 < c ∨ t + 60 > c + 60) ↔ t ≤ c ∧ c.toInt + 60 < 2 ^ 63 := by
  obtain ⟨hl, hr⟩ := abs_le.1 hskew
  have ht := t.le_toInt
  have hc := c.le_toInt
  have hc' := c.toInt_lt
  have hadd := Wrapping.toInt_add_of_nonneg t 60 (by decide)
  have hadd' := Wrapping.toInt_add_of_nonneg c 60 (by decide)
  rw [toInt_sixty] at hadd hadd'
  rw [gt_iff_lt, Int64.lt_iff_toInt_lt, Int64.lt_iff_toInt_lt, Int64.le_iff_toInt_le, hadd, hadd']
  split <;> split <;> omega

theorem not_expired {t : Int64} (h : t.toInt + 60 < 2 ^ 63) : ¬ t + 60 < t := by
  rw [Int64.lt_iff_toInt_lt, Wrapping.toInt_add_of_nonneg t 60 (by decide), toInt_sixty, if_pos h]
  omega

section Tolerance

variable [Primitives] {t c : Int64} {identity : KeypairFile} {target : String}
  {random random' : Bytes} {challenge challenge' : AuthChallenge} {state state' : AppState}
  {expected : Option String}

/-- What the table has after a challenge was given out. -/
theorem getElem?_challengeHandler
    (h : challengeHandler random t t state = (.ok challenge, state')) :
    makeAuthChallenge state.identity "/status" random t = .ok challenge ∧
      state'.discoveryChallenges[challenge.nonce]? = some challenge.expires ∧
      state'.identity = state.identity := by
  rw [challengeHandler] at h
  cases hmake : makeAuthChallenge state.identity "/status" random t with
  | error e =>
    rw [hmake] at h
    cases h
  | ok made =>
    rw [hmake] at h
    simp only at h
    split at h
    · cases h
    · cases h
      exact ⟨rfl, Std.ExtTreeMap.getElem?_insert_self, rfl⟩

/-- A client admits the challenge of an honest server exactly if its own
clock is not behind, and does not run out. -/
theorem verifyAuthChallenge_made (hsigns : ∀ payload sig, identity.signBytes payload = .ok sig →
      verifyBytes identity.publicKey sig payload = .ok ()) (hrandom : random.length = 32)
    (hmake : makeAuthChallenge identity target random t = .ok challenge)
    (hexpected : ∀ pin ∈ expected, pin = identity.publicKey)
    (hskew : |c.toInt - t.toInt| ≤ 60) :
    verifyAuthChallenge challenge target expected c c = .ok () ↔
      t ≤ c ∧ c.toInt + 60 < 2 ^ 63 := by
  obtain ⟨signature, hsign, rfl⟩ := makeAuthChallenge_ok.1 hmake
  rw [verifyAuthChallenge_ok, ← expiry_admitted_iff hskew]
  constructor
  · exact fun h => h.2.1
  · exact fun h => ⟨rfl, h, ⟨random, hexDecode_hexEncode random, hrandom⟩, hexpected,
      hsigns _ _ hsign⟩

/-- What is claimed of a server at `t` and a client at `c`: the client
admits both challenges, and the server's clock lets both replies pass. -/
structure Tolerated (t c : Int64) (challenge challenge' : AuthChallenge) (state' : AppState)
    (expected : Option String) : Prop where
  admitted : verifyAuthChallenge challenge "/sync" expected c c = .ok ()
  reply : ∀ status chan, status.authTs = c → StatusChecked challenge status chan →
    checkStatus challenge status t t = .ok chan
  discoveryAdmitted : verifyAuthChallenge challenge' "/status" expected c c = .ok ()
  discoveryReply : ∀ key signature,
    verifyBytes key signature
      (discoveryAuthPayload c challenge'.nonce state'.identity.publicKey) = .ok () →
    ∃ left, discoveryRequester ⟨some (.ok key), some (.ok c), some (.ok signature),
      some (.ok challenge'.nonce)⟩ t t state' = .ok (some key, left)

/-- **The handshake tolerates a client whose clock is ahead**, by up to a
minute, and none whose clock is behind: with both parties honest and no
delay between them, the challenges are admitted and the replies pass
exactly if the client's clock is not behind the server's, and is a minute
from its end. -/
theorem handshake_tolerance_iff
    (hsigns : ∀ payload sig, state.identity.signBytes payload = .ok sig →
      verifyBytes state.identity.publicKey sig payload = .ok ())
    (hrandom : random.length = 32) (hrandom' : random'.length = 32)
    (hsync : makeAuthChallenge state.identity "/sync" random t = .ok challenge)
    (hdiscovery : challengeHandler random' t t state = (.ok challenge', state'))
    (hexpected : ∀ pin ∈ expected, pin = state.identity.publicKey)
    (hskew : |c.toInt - t.toInt| ≤ 60) :
    Tolerated t c challenge challenge' state' expected ↔ t ≤ c ∧ c.toInt + 60 < 2 ^ 63 := by
  obtain ⟨hmake', htable, hidentity⟩ := getElem?_challengeHandler hdiscovery
  have hverify := verifyAuthChallenge_made hsigns hrandom hsync hexpected hskew
  have hverify' := verifyAuthChallenge_made hsigns hrandom' hmake' hexpected hskew
  constructor
  · exact fun h => hverify.1 h.admitted
  · intro h
    have htc : t.toInt ≤ c.toInt := Int64.le_iff_toInt_le.1 h.1
    have hfresh : ¬ Stale t c := not_stale_of_abs_le (abs_sub_comm c.toInt t.toInt ▸ hskew)
    have hlive : ¬ t + 60 < t := not_expired (by omega)
    obtain ⟨_, -, rfl⟩ := makeAuthChallenge_ok.1 hsync
    obtain ⟨_, -, rfl⟩ := makeAuthChallenge_ok.1 hmake'
    refine ⟨hverify.2 h, ?_, hverify'.2 h, fun key signature hsignature => ?_⟩
    · rintro status chan rfl hchecked
      exact checkStatus_ok.2 ⟨hchecked, hfresh, hlive⟩
    · exact ⟨_, discoveryRequester_ok.2 (.inr ⟨_, _, _, _, _, rfl, rfl, rfl, rfl, hfresh, htable,
        hlive, hsignature, rfl, rfl⟩)⟩

end Tolerance

section Skewed

open Simulated

attribute [local instance] simulated

/-- 32 bytes. -/
def someRandom : Bytes := List.replicate 32 7

theorem signs_identity (n : UInt8) (payload : Bytes) (sig : String)
    (h : (identity n).signBytes payload = .ok sig) :
    verifyBytes (identity n).publicKey sig payload = .ok () := by
  rw [signBytes_identity] at h
  cases h
  exact verifyBytes_signatureOf n payload

/-- A challenge as the server makes it, at that time. -/
def challengeAt (target : String) (t : Int64) : AuthChallenge where
  msgType := "challenge"
  nonce := hexEncode someRandom
  responder := (identity 4).publicKey
  expires := t + 60
  signature := signatureOf 4 (responderChallengePayload target (hexEncode someRandom)
    (identity 4).publicKey (t + 60))

theorem makeAuthChallenge_challengeAt (target : String) (t : Int64) :
    makeAuthChallenge (identity 4) target someRandom t = .ok (challengeAt target t) :=
  makeAuthChallenge_ok.2 ⟨_, signBytes_identity 4 _, rfl⟩

/-- The server with no challenge out. -/
def freshState : AppState := { identity := identity 4 }

theorem exists_challengeHandler_freshState (t : Int64) : ∃ state,
    challengeHandler someRandom t t freshState = (.ok (challengeAt "/status" t), state) := by
  rw [challengeHandler, show freshState.identity = identity 4 from rfl,
    makeAuthChallenge_challengeAt]
  simp only
  rw [if_neg (by
    have hempty : freshState.discoveryChallenges.filter (fun _ expiry => decide (expiry ≥ t)) = ∅ :=
      Std.ExtTreeMap.ext_getElem? fun k => by simp [freshState]
    rw [hempty, Std.ExtTreeMap.size_empty]
    decide)]
  exact ⟨_, rfl⟩

/-- **A client whose clock is a second behind admits no challenge** of an
honest server. -/
theorem clock_behind_refused :
    |(0 : Int64).toInt - (1 : Int64).toInt| ≤ 60 ∧
      (∀ payload sig, freshState.identity.signBytes payload = .ok sig →
        verifyBytes freshState.identity.publicKey sig payload = .ok ()) ∧
      makeAuthChallenge freshState.identity "/sync" someRandom 1 = .ok (challengeAt "/sync" 1) ∧
      verifyAuthChallenge (challengeAt "/sync" 1) "/sync" none 0 0 ≠ .ok () ∧
      ∃ state, challengeHandler someRandom 1 1 freshState =
          (.ok (challengeAt "/status" 1), state) ∧
        verifyAuthChallenge (challengeAt "/status" 1) "/status" none 0 0 ≠ .ok () ∧
        ¬ Tolerated 1 0 (challengeAt "/sync" 1) (challengeAt "/status" 1) state none := by
  have hrefused (target : String) :
      verifyAuthChallenge (challengeAt target 1) target none 0 0 ≠ .ok () := by
    rw [ne_eq, verifyAuthChallenge_ok]
    have hlater : (1 : Int64) + 60 > 0 + 60 := by decide
    exact fun h => h.2.1 (.inr hlater)
  obtain ⟨state, hstate⟩ := exists_challengeHandler_freshState 1
  exact ⟨by decide, signs_identity 4, makeAuthChallenge_challengeAt "/sync" 1,
    hrefused "/sync", state, hstate, hrefused "/status", fun h => hrefused "/sync" h.admitted⟩

/-- The law for a client half a minute ahead. -/
theorem handshake_tolerance_iff_ahead : ∃ state,
    Tolerated 0 30 (challengeAt "/sync" 0) (challengeAt "/status" 0) state
      (some (identity 4).publicKey) := by
  obtain ⟨state, hstate⟩ := exists_challengeHandler_freshState 0
  have hlength : someRandom.length = 32 := by rw [someRandom, List.length_replicate]
  have hsigns : ∀ payload sig, freshState.identity.signBytes payload = .ok sig →
      verifyBytes freshState.identity.publicKey sig payload = .ok () := signs_identity 4
  have hmake : makeAuthChallenge freshState.identity "/sync" someRandom 0 =
      .ok (challengeAt "/sync" 0) := makeAuthChallenge_challengeAt "/sync" 0
  have hexpected : ∀ pin ∈ some (identity 4).publicKey, pin = freshState.identity.publicKey :=
    fun _ hpin => (Option.some.inj hpin).symm
  exact ⟨state, (handshake_tolerance_iff hsigns hlength hlength hmake hstate hexpected
    (by decide)).2 ⟨by decide, by decide⟩⟩

end Skewed

end Embernet
