import Embernet.Lib.Replay
import Embernet.Model.Discovery
import Embernet.Model.Simulated
/-!
# Discovery challenges — issued, and consumed once

The table holds what was issued and neither consumed nor swept as
expired. A request that passes finds its nonce there and takes it out; as
no nonce is drawn twice, none passes twice, and the table is never
filled beyond its bound.
-/

set_option autoImplicit false

namespace Embernet

open Primitives

/-! ## Requests -/

/-- A request as it was answered: what it was given, the clock readings, and
the response. -/
inductive Answered
  | challenge (random : Bytes) (now now' : Int64) (response : Response AuthChallenge)
  | status (d : Datadir) (headers : DiscoveryHeaders) (now now' : Int64)
      (response : Response PeerStatus)

namespace Answered

/-- The bytes a challenge was drawn from. -/
def drawn : Answered → Option Bytes
  | challenge random .. => some random
  | status .. => none

/-- The nonce that was issued, and its expiry. -/
def issued : Answered → Option (String × Int64)
  | challenge _ _ _ (.ok c) => some (c.nonce, c.expires)
  | _ => none

/-- The nonce that a request which was accepted as authentic named, and
the clock reading its expiry was compared with. -/
def accepted : Answered → Option (String × Int64)
  | status _ headers _ now' (.ok _) =>
    match headers.nonce with
    | some (.ok nonce) => some (nonce, now')
    | _ => none
  | _ => none

/-- The request was refused. -/
def Refused : Answered → Prop
  | challenge _ _ _ (.error _ _) | status _ _ _ _ (.error _ _) => True
  | _ => False

/-- The clock reading that a request for a challenge swept with. -/
def swept : Answered → Option Int64
  | challenge _ _ now' _ => some now'
  | status .. => none

end Answered

section Challenges

variable [Primitives] {s t : AppState} {evs : List Answered} {ev : Answered}

/-- One request, whose response is the handler's. -/
def ServeStep (s : AppState) (ev : Answered) (t : AppState) : Prop :=
  match ev with
  | .challenge random now now' response => challengeHandler random now now' s = (response, t)
  | .status d headers now now' response => statusHandler d headers now now' s = (response, t)

/-! ## What a request does -/

/-- The table without what has expired. -/
def AppState.sweep (s : AppState) (now : Int64) : Std.ExtTreeMap String Int64 :=
  s.discoveryChallenges.filter fun _ expiry => decide (expiry ≥ now)

/-- The state with another table. -/
def AppState.setChallenges (s : AppState) (table : Std.ExtTreeMap String Int64) : AppState :=
  { s with discoveryChallenges := table }

/-- **What a request does to the table**: it issues a nonce into a swept
table that has room, sweeps one that has none, consumes the nonce it
names, or does nothing. -/
inductive Outcome (s : AppState) : Answered → AppState → Prop
  | failed {random : Bytes} {now now' : Int64} {e : Error} :
      Outcome s (.challenge random now now' (.error 500 e)) s
  | full {random : Bytes} {now now' : Int64} {e : Error} :
      Outcome s (.challenge random now now' (.error 429 e))
        (s.setChallenges (s.sweep now'))
  | issued {random : Bytes} {now now' : Int64} {c : AuthChallenge} : c.nonce = hexEncode random →
      (s.sweep now').size < maxDiscoveryChallenges →
      Outcome s (.challenge random now now' (.ok c))
        (s.setChallenges ((s.sweep now').insert c.nonce c.expires))
  | refused {d : Datadir} {headers : DiscoveryHeaders} {now now' : Int64} {e : Error} :
      Outcome s (.status d headers now now' (.error 401 e)) s
  | anonymous {d : Datadir} {headers : DiscoveryHeaders} {now now' : Int64} {body : PeerStatus} :
      headers.nonce = none → Outcome s (.status d headers now now' (.ok body)) s
  | consumed {d : Datadir} {headers : DiscoveryHeaders} {now now' : Int64} {body : PeerStatus}
      {nonce : String} {expires : Int64} : headers.nonce = some (.ok nonce) →
      s.discoveryChallenges[nonce]? = some expires → now' ≤ expires →
      Outcome s (.status d headers now now' (.ok body))
        (s.setChallenges (s.discoveryChallenges.erase nonce))

theorem outcome_of_step (hstep : ServeStep s ev t) : Outcome s ev t := by
  cases ev with
  | challenge random now now' response =>
    simp only [ServeStep, challengeHandler] at hstep
    cases hmake : makeAuthChallenge s.identity "/status" random now with
    | error e =>
      rw [hmake] at hstep
      cases hstep
      exact .failed
    | ok c =>
      rw [hmake] at hstep
      have hnonce : c.nonce = hexEncode random := by
        obtain ⟨_, -, rfl⟩ := makeAuthChallenge_ok.1 hmake
        rfl
      simp only at hstep
      split at hstep
      · cases hstep
        exact .full
      · cases hstep
        exact .issued hnonce (not_le.1 ‹_›)
  | status d headers now now' response =>
    simp only [ServeStep, statusHandler] at hstep
    cases hrequester : discoveryRequester headers now now' s with
    | error e =>
      rw [hrequester] at hstep
      cases hstep
      exact .refused
    | ok r =>
      obtain ⟨requester, s'⟩ := r
      rw [hrequester] at hstep
      cases hstep
      rcases discoveryRequester_ok.1 hrequester with
        ⟨-, -, -, hnonce, -, rfl⟩ |
          ⟨_, _, _, _, _, -, -, -, hnonce, -, hexpires, hnow, -, -, rfl⟩
      · exact .anonymous hnonce
      · exact .consumed hnonce hexpires (Int64.not_lt.1 hnow)

omit [Primitives] in
/-- A sweep takes out what has expired, and nothing else. -/
theorem getElem?_sweep {now expires : Int64} {nonce : String} :
    (s.sweep now)[nonce]? = some expires ↔
      s.discoveryChallenges[nonce]? = some expires ∧ now ≤ expires := by
  rw [AppState.sweep, Std.ExtTreeMap.getElem?_filter', Option.filter_eq_some_iff]
  simp

omit [Primitives] in
theorem size_sweep_le (s : AppState) (now : Int64) :
    (s.sweep now).size ≤ s.discoveryChallenges.size :=
  Std.ExtTreeMap.size_filter_le_size

/-! ## Runs -/

/-- What the table is after these requests: what was issued and has not
been consumed. -/
structure Tabled (evs : List Answered) (s : AppState) : Prop where
  bounded : s.discoveryChallenges.size ≤ maxDiscoveryChallenges
  issued : ∀ nonce expires, s.discoveryChallenges[nonce]? = some expires →
    ∃ ev ∈ evs, ev.issued = some (nonce, expires)
  drawn : ∀ ev ∈ evs, ∀ nonce expires, ev.issued = some (nonce, expires) →
    ∃ random, ev.drawn = some random ∧ nonce = hexEncode random
  consumed : ∀ ev ∈ evs, ∀ nonce now, ev.accepted = some (nonce, now) →
    s.discoveryChallenges[nonce]? = none ∧
      ∃ ev' ∈ evs, ∃ expires, ev'.issued = some (nonce, expires)
  once : (evs.filterMap fun ev => ev.accepted.map Prod.fst).Nodup

omit [Primitives] in
theorem Tabled.nil (hnone : s.discoveryChallenges = ∅) : Tabled [] s where
  bounded := by simp [hnone]
  issued := by simp [hnone]
  drawn := by simp
  consumed := by simp
  once := List.nodup_nil

omit [Primitives] in
/-- A request that is neither accepted nor given a nonce, and adds nothing
to the table. -/
theorem Tabled.idle (h : Tabled evs s) (hissued : ev.issued = none) (haccepted : ev.accepted = none)
    (hsize : t.discoveryChallenges.size ≤ s.discoveryChallenges.size)
    (hsub : ∀ (nonce : String) (expires : Int64), t.discoveryChallenges[nonce]? = some expires →
      s.discoveryChallenges[nonce]? = some expires) : Tabled (evs ++ [ev]) t where
  bounded := hsize.trans h.bounded
  issued nonce expires hmem := by
    obtain ⟨ev', hev', hev⟩ := h.issued nonce expires (hsub nonce expires hmem)
    exact ⟨ev', List.mem_append_left _ hev', hev⟩
  drawn ev' hmem nonce expires hev' := by
    rcases List.mem_append.1 hmem with hmem | hmem
    · exact h.drawn ev' hmem nonce expires hev'
    · rw [List.mem_singleton.1 hmem, hissued] at hev'
      cases hev'
  consumed ev' hmem nonce now hev' := by
    rcases List.mem_append.1 hmem with hmem | hmem
    · obtain ⟨hnone, ev'', hev'', hissued''⟩ := h.consumed ev' hmem nonce now hev'
      refine ⟨?_, ev'', List.mem_append_left _ hev'', hissued''⟩
      cases htable : t.discoveryChallenges[nonce]? with
      | none => rfl
      | some expires => exact absurd (hsub nonce expires htable) (by rw [hnone]; nofun)
    · rw [List.mem_singleton.1 hmem, haccepted] at hev'
      cases hev'
  once := by
    rw [List.filterMap_append]
    simp [haccepted, h.once]

omit [Primitives] in
/-- **A request keeps the table what it is**, where it draws what was not
drawn before. -/
theorem Tabled.step (h : Tabled evs s) (houtcome : Outcome s ev t)
    (hfresh : ((evs ++ [ev]).filterMap Answered.drawn).Nodup) : Tabled (evs ++ [ev]) t := by
  cases houtcome with
  | failed | refused => exact h.idle rfl rfl le_rfl fun _ _ hmem => hmem
  | full => exact h.idle rfl rfl (size_sweep_le s _) fun _ _ hmem => (getElem?_sweep.1 hmem).1
  | anonymous hnonce =>
    refine h.idle rfl ?_ le_rfl fun _ _ hmem => hmem
    simp [Answered.accepted, hnonce]
  | @issued random now now' c hnonce hroom =>
    -- the nonce is a new one
    have hnew : ∀ ev' ∈ evs, ∀ expires, ev'.issued ≠ some (c.nonce, expires) := by
      intro ev' hev' expires hissued
      obtain ⟨random', hdrawn, hrandom⟩ := h.drawn ev' hev' c.nonce expires hissued
      obtain rfl : random = random' := hexEncode_injective (hnonce.symm.trans hrandom)
      rw [List.filterMap_append, List.nodup_append] at hfresh
      exact hfresh.2.2 random (List.mem_filterMap.2 ⟨ev', hev', hdrawn⟩) random
        (by simp [Answered.drawn]) rfl
    constructor
    · exact Std.ExtTreeMap.size_insert_le.trans hroom
    · intro nonce expires hmem
      change ((s.sweep now').insert c.nonce c.expires)[nonce]? = _ at hmem
      rw [Std.ExtTreeMap.getElem?_insert] at hmem
      split at hmem
      · rename_i heq
        rw [Std.LawfulEqCmp.compare_eq_iff_eq] at heq
        cases hmem
        exact ⟨_, List.mem_append_right _ (List.mem_singleton_self _), by rw [← heq]; rfl⟩
      · obtain ⟨ev', hev', hev⟩ := h.issued nonce expires (getElem?_sweep.1 hmem).1
        exact ⟨ev', List.mem_append_left _ hev', hev⟩
    · intro ev' hmem nonce expires hissued
      rcases List.mem_append.1 hmem with hmem | hmem
      · exact h.drawn ev' hmem nonce expires hissued
      · rw [List.mem_singleton.1 hmem] at hissued ⊢
        cases hissued
        exact ⟨random, rfl, hnonce⟩
    · intro ev' hmem nonce now hev'
      rcases List.mem_append.1 hmem with hmem | hmem
      · obtain ⟨hnone, ev'', hev'', expires, hissued⟩ := h.consumed ev' hmem nonce now hev'
        refine ⟨?_, ev'', List.mem_append_left _ hev'', expires, hissued⟩
        have hne : c.nonce ≠ nonce := by
          rintro rfl
          exact hnew ev'' hev'' expires hissued
        change ((s.sweep now').insert c.nonce c.expires)[nonce]? = none
        rw [Std.ExtTreeMap.getElem?_insert, if_neg (by simpa using hne)]
        cases hsweep : (s.sweep now')[nonce]? with
        | none => rfl
        | some expires => exact absurd (getElem?_sweep.1 hsweep).1 (by rw [hnone]; nofun)
      · rw [List.mem_singleton.1 hmem] at hev'
        cases hev'
    · have haccepted : (Answered.challenge random now now' (.ok c)).accepted = none := rfl
      rw [List.filterMap_append]
      simp [haccepted, h.once]
  | @consumed d headers now now' body nonce expires hnonce hexpires hnow =>
    have hthis : ∀ nonce' now'', (Answered.status d headers now now' (.ok body)).accepted =
        some (nonce', now'') → nonce' = nonce := by
      intro nonce' now'' h
      simp only [Answered.accepted, hnonce] at h
      cases h
      rfl
    have hkept : ∀ nonce' expires', (s.discoveryChallenges.erase nonce)[nonce']? = some expires' →
        nonce' ≠ nonce ∧ s.discoveryChallenges[nonce']? = some expires' := by
      intro nonce' expires' hmem
      rw [Std.ExtTreeMap.getElem?_erase] at hmem
      split at hmem
      · cases hmem
      · rename_i hne
        exact ⟨fun h => hne (by simp [h]), hmem⟩
    constructor
    · exact Std.ExtTreeMap.size_erase_le.trans h.bounded
    · intro nonce' expires' hmem
      obtain ⟨ev', hev', hev⟩ := h.issued nonce' expires' (hkept nonce' expires' hmem).2
      exact ⟨ev', List.mem_append_left _ hev', hev⟩
    · intro ev' hmem nonce' expires' hissued
      rcases List.mem_append.1 hmem with hmem | hmem
      · exact h.drawn ev' hmem nonce' expires' hissued
      · rw [List.mem_singleton.1 hmem] at hissued
        cases hissued
    · intro ev' hmem nonce' now'' hev'
      rcases List.mem_append.1 hmem with hmem | hmem
      · obtain ⟨hnone, ev'', hev'', expires, hissued⟩ := h.consumed ev' hmem nonce' now'' hev'
        refine ⟨?_, ev'', List.mem_append_left _ hev'', expires, hissued⟩
        change (s.discoveryChallenges.erase nonce)[nonce']? = none
        rw [Std.ExtTreeMap.getElem?_erase, hnone, ite_self]
      · rw [List.mem_singleton.1 hmem] at hev'
        obtain rfl := hthis nonce' now'' hev'
        obtain ⟨ev'', hev'', hissued⟩ := h.issued nonce' expires hexpires
        refine ⟨?_, ev'', List.mem_append_left _ hev'', expires, hissued⟩
        exact Std.ExtTreeMap.getElem?_erase_self
    · rw [List.filterMap_append, List.nodup_append]
      refine ⟨h.once, by simp [Answered.accepted, hnonce], ?_⟩
      rintro nonce' hmem nonce'' hmem'' rfl
      obtain ⟨ev', hev', hev⟩ := List.mem_filterMap.1 hmem
      obtain ⟨⟨n, now''⟩, haccepted, rfl⟩ := Option.map_eq_some_iff.1 hev
      obtain ⟨hnone, -⟩ := h.consumed ev' hev' n now'' haccepted
      have : n = nonce := by simpa [Answered.accepted, hnonce] using hmem''
      rw [this, hexpires] at hnone
      cases hnone

omit [Primitives] in
/-- Bytes drawn once were drawn once before. -/
theorem nodup_drawn_of_append {evs' : List Answered}
    (h : ((evs ++ evs').filterMap Answered.drawn).Nodup) :
    (evs.filterMap Answered.drawn).Nodup := by
  rw [List.filterMap_append] at h
  exact (List.nodup_append.1 h).1

theorem tabled_of_run {s₀ : AppState} (hrun : Run ServeStep s₀ evs s)
    (hnone : s₀.discoveryChallenges = ∅) (hfresh : (evs.filterMap Answered.drawn).Nodup) :
    Tabled evs s := by
  induction hrun with
  | nil => exact .nil hnone
  | snoc _ hstep ih =>
    exact (ih (nodup_drawn_of_append hfresh)).step (outcome_of_step hstep) hfresh

/-- **Discovery challenges are single use and bounded**, over any requests
and any clock, where no bytes are drawn twice: no nonce is accepted twice,
the table keeps its bound, and of the next request,

* where it is accepted, its nonce was issued, is in the table with an
  expiry that the clock has not passed, and goes, alone;
* where it is refused, nothing goes but what a sweep finds expired. -/
theorem discovery_challenges_single_use {s₀ : AppState} (hrun : Run ServeStep s₀ evs s)
    (hnone : s₀.discoveryChallenges = ∅) (hfresh : (evs.filterMap Answered.drawn).Nodup) :
    (evs.filterMap fun ev => ev.accepted.map Prod.fst).Nodup ∧
      s.discoveryChallenges.size ≤ maxDiscoveryChallenges ∧
      ∀ ev t, ServeStep s ev t →
        (∀ nonce now, ev.accepted = some (nonce, now) →
          ∃ expires, (∃ ev' ∈ evs, ev'.issued = some (nonce, expires)) ∧
            s.discoveryChallenges[nonce]? = some expires ∧ now ≤ expires ∧
            t.discoveryChallenges = s.discoveryChallenges.erase nonce) ∧
        (ev.Refused → ∀ (nonce : String) (expires : Int64),
          s.discoveryChallenges[nonce]? = some expires →
          t.discoveryChallenges[nonce]? = some expires ∨
            ∃ now, ev.swept = some now ∧ expires < now) := by
  have htabled := tabled_of_run hrun hnone hfresh
  refine ⟨htabled.once, htabled.bounded, fun ev t hstep => ⟨fun nonce now haccepted => ?_,
    fun hrefused nonce expires hmem => ?_⟩⟩
  · cases outcome_of_step hstep with
    | failed | full | issued | refused => cases haccepted
    | anonymous hnonce => simp [Answered.accepted, hnonce] at haccepted
    | consumed hnonce hexpires hnow =>
      simp only [Answered.accepted, hnonce] at haccepted
      cases haccepted
      exact ⟨_, htabled.issued _ _ hexpires, hexpires, hnow, rfl⟩
  · cases outcome_of_step hstep with
    | failed | refused => exact .inl hmem
    | full =>
      rename_i random now now' e
      by_cases hexpired : now' ≤ expires
      · exact .inl (getElem?_sweep.2 ⟨hmem, hexpired⟩)
      · exact .inr ⟨now', rfl, Int64.not_le.1 hexpired⟩
    | issued | anonymous | consumed => cases hrefused

end Challenges

/-! ### One challenge, consumed -/

section Consumed

open Simulated

attribute [local instance] simulated

/-- A server that has issued nothing. -/
def freshServer : AppState where
  identity := identity 4

/-- What it draws first. -/
def firstDrawn : Bytes := List.replicate 32 0

/-- The challenge it makes of that. -/
def firstChallenge : AuthChallenge where
  msgType := "challenge"
  nonce := hexEncode firstDrawn
  responder := (identity 4).publicKey
  expires := 60
  signature := signatureOf 4 (responderChallengePayload "/status" (hexEncode firstDrawn)
    (identity 4).publicKey 60)

/-- The server that has issued it. -/
def issuedServer : AppState :=
  freshServer.setChallenges ((freshServer.sweep 0).insert firstChallenge.nonce 60)

/-- The headers of a client that signs it. -/
def signedHeaders : DiscoveryHeaders where
  key := some (.ok (identity 3).publicKey)
  timestamp := some (.ok 0)
  signature := some (.ok (signatureOf 3
    (discoveryAuthPayload 0 firstChallenge.nonce (identity 4).publicKey)))
  nonce := some (.ok firstChallenge.nonce)

theorem step_firstChallenge :
    ServeStep freshServer (.challenge firstDrawn 0 0 (.ok firstChallenge)) issuedServer := by
  have hmake : makeAuthChallenge (identity 4) "/status" firstDrawn 0 = .ok firstChallenge := by
    rw [makeAuthChallenge, signBytes_identity]
    rfl
  have hroom : ¬ (freshServer.sweep 0).size ≥ maxDiscoveryChallenges := by
    have hsize := size_sweep_le freshServer 0
    have hnone : freshServer.discoveryChallenges.size = 0 := Std.ExtTreeMap.size_empty
    rw [hnone] at hsize
    rw [maxDiscoveryChallenges]
    omega
  have hmake' : makeAuthChallenge freshServer.identity "/status" firstDrawn 0 =
      .ok firstChallenge := hmake
  rw [AppState.sweep] at hroom
  simp only [ServeStep, challengeHandler, hmake', if_neg hroom]
  rfl

/-- The server after the request that answers it. -/
def consumedServer : AppState :=
  issuedServer.setChallenges (issuedServer.discoveryChallenges.erase firstChallenge.nonce)

theorem exists_step_signed : ∃ body,
    ServeStep issuedServer (.status {} signedHeaders 0 0 (.ok body)) consumedServer := by
  have hfound : issuedServer.discoveryChallenges[firstChallenge.nonce]? = some 60 :=
    Std.ExtTreeMap.getElem?_insert_self
  have htime : ¬ ((0 : Int64) - 0).abs > 60 := by decide
  have hexpiry : ¬ (60 : Int64) < 0 := by decide
  have hrequester : discoveryRequester signedHeaders 0 0 issuedServer =
      .ok (some (identity 3).publicKey, consumedServer) := by
    rw [discoveryRequester, if_neg (by simp [signedHeaders])]
    simp only [bind_eq_ok, bailIf_eq_ok, orBail_eq_ok, context_eq_ok, pure_eq_ok]
    exact ⟨_, rfl, _, rfl, _, rfl, _, rfl, _, rfl, _, rfl, _, rfl, _, rfl, (), htime, 60, hfound,
      (), hexpiry, (), verifyBytes_signatureOf 3 _, rfl⟩
  have hstatus : ∃ body,
      statusHandler {} signedHeaders 0 0 issuedServer = (.ok body, consumedServer) := by
    rw [statusHandler, hrequester]
    exact ⟨_, rfl⟩
  exact hstatus

/-- The law for that server and the request: the nonce goes. -/
theorem discovery_challenges_single_use_signed : ∃ body,
    Run ServeStep freshServer [.challenge firstDrawn 0 0 (.ok firstChallenge)] issuedServer ∧
      ServeStep issuedServer (.status {} signedHeaders 0 0 (.ok body)) consumedServer ∧
      ∃ expires, issuedServer.discoveryChallenges[firstChallenge.nonce]? = some expires ∧
        (0 : Int64) ≤ expires := by
  have hrun : Run ServeStep freshServer [.challenge firstDrawn 0 0 (.ok firstChallenge)]
      issuedServer := .snoc (.nil _) step_firstChallenge
  obtain ⟨body, hstep⟩ := exists_step_signed
  refine ⟨body, hrun, hstep, ?_⟩
  obtain ⟨-, -, hnext⟩ := discovery_challenges_single_use hrun rfl (List.nodup_singleton _)
  obtain ⟨expires, -, hfound, hnow, -⟩ := (hnext _ _ hstep).1 firstChallenge.nonce 0 rfl
  exact ⟨expires, hfound, hnow⟩

end Consumed

end Embernet
