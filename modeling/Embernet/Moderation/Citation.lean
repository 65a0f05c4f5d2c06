import Embernet.Model.Simulated
import Embernet.Policy.Heads
/-!
# Citations — the policy a moderation event is judged by

An event of the moderation history is judged by the policy at the head it
cites, and its actor chooses the head. So a moderator whose role was
revoked can still write an event that cites the head before the
revocation, behind events that cite later ones. What stays removed is the
authority to cite: no event that cites the revocation, or anything after
it, is theirs. And what a node appends itself cites the newest head, so
that a history built locally never goes back.
-/

set_option autoImplicit false

namespace Embernet

open Primitives

section Citations

variable [Primitives] {chan : ChannelRef} {P : List PolicyEvent} {M : List ModerationEvent}
  {policy : ChannelPolicy} {state : ModerationState}

/-- Where the policy history has the heads that a moderation history
cites, in order. -/
def citations (P : List PolicyEvent) (M : List ModerationEvent) : List (Option ℕ) :=
  M.map fun e => policyPosition P e.policyHead

/-- The positions are there, and never go back. -/
def CitesForward (P : List PolicyEvent) (M : List ModerationEvent) : Prop :=
  ∃ positions : List ℕ, citations P M = positions.map some ∧ positions.Pairwise (· ≤ ·) ∧
    ∀ p ∈ positions, p < P.length

omit [Primitives] in
/-- Of two events the later cites no earlier head. -/
theorem CitesForward.le (h : CitesForward P M) {i j : ℕ} (hij : i ≤ j) (hi : i < M.length)
    (hj : j < M.length) {p q : ℕ} (hp : policyPosition P M[i].policyHead = some p)
    (hq : policyPosition P M[j].policyHead = some q) : p ≤ q := by
  obtain ⟨positions, hcited, hsorted, -⟩ := h
  have hat : ∀ k (hk : k < M.length) r, policyPosition P M[k].policyHead = some r →
      positions[k]? = some r := by
    intro k hk r hr
    have : (citations P M)[k]? = (positions.map some)[k]? := by rw [hcited]
    simpa [citations, List.getElem?_eq_getElem hk, hr, eq_comm] using this
  obtain ⟨hi', rfl⟩ := List.getElem?_eq_some_iff.1 (hat i hi p hp)
  obtain ⟨hj', rfl⟩ := List.getElem?_eq_some_iff.1 (hat j hj q hq)
  rcases hij.lt_or_eq with hlt | rfl
  · exact List.pairwise_iff_getElem.1 hsorted i j hi' hj' hlt
  · exact le_rfl

/-! ## What a node appends -/

/-- What happens to the two histories of a node that takes in no
moderation from elsewhere: its policy grows, or it moderates. -/
inductive LocalChange
  | policy (Q : List PolicyEvent)
  | moderation (signer : KeypairFile) (now : Int64) (action : ModerationAction)

/-- One of the two, successful. -/
inductive LocalStep (chan : ChannelRef) :
    List PolicyEvent × List ModerationEvent → LocalChange →
      List PolicyEvent × List ModerationEvent → Prop
  | policy {P Q : List PolicyEvent} {M : List ModerationEvent} {p : ChannelPolicy} :
      derivePolicy chan (P ++ Q) = .ok p → LocalStep chan (P, M) (.policy Q) (P ++ Q, M)
  | moderation {P : List PolicyEvent} {M : List ModerationEvent} {signer : KeypairFile}
      {now : Int64} {action : ModerationAction} {e : ModerationEvent} {state : ModerationState} :
      nextModerationEvent chan P M signer now action = .ok e →
      deriveModerationUnder chan P (M ++ [e]) = .ok state →
      LocalStep chan (P, M) (.moderation signer now action) (P, M ++ [e])

omit [Primitives] in
/-- That stays so when the policy history grows. -/
theorem citesForward_extend (h : CitesForward P M) (Q : List PolicyEvent) : CitesForward (P ++ Q) M := by
  obtain ⟨positions, hcited, hsorted, hbound⟩ := h
  refine ⟨positions, ?_, hsorted, fun p hp => ?_⟩
  · refine List.ext_getElem (by simpa [citations] using congrArg List.length hcited) ?_
    intro k hk hk'
    have hkM : k < M.length := by simpa [citations] using hk
    have := List.getElem_of_eq hcited (i := k) (by simpa [citations] using hkM)
    simp only [citations, List.getElem_map] at this ⊢
    exact policyPosition_append this Q
  · rw [List.length_append]
    exact (hbound p hp).trans_le (Nat.le_add_right _ _)

/-- **What a node appends cites the newest head.** -/
theorem policyPosition_next (hU : Set.InjOn blake3 (policyPayloads P))
    (hP : derivePolicy chan P = .ok policy) {signer : KeypairFile} {now : Int64}
    {action : ModerationAction} {e : ModerationEvent}
    (h : nextModerationEvent chan P M signer now action = .ok e) :
    P ≠ [] ∧ policyPosition P e.policyHead = some (P.length - 1) := by
  simp only [nextModerationEvent, signModerationEvent, bind_eq_ok, orBail_eq_ok, pure_eq_ok] at h
  obtain ⟨head, hhead, _, -, rfl⟩ := h
  refine ⟨?_, policyPosition_getLast hU hP hhead⟩
  rintro rfl
  cases hhead

omit [Primitives] in
/-- And when an event is added that cites the newest head. -/
theorem citesForward_concat (h : CitesForward P M) (hne : P ≠ []) {e : ModerationEvent}
    (he : policyPosition P e.policyHead = some (P.length - 1)) : CitesForward P (M ++ [e]) := by
  obtain ⟨positions, hcited, hsorted, hbound⟩ := h
  have hpos : 0 < P.length := List.length_pos_iff.2 hne
  refine ⟨positions ++ [P.length - 1], ?_, ?_, ?_⟩
  · rw [citations, List.map_append, List.map_append, ← citations, hcited]
    simp [he]
  · refine List.pairwise_append.2 ⟨hsorted, List.pairwise_singleton _ _, ?_⟩
    intro p hp q hq
    rw [List.mem_singleton] at hq
    have := hbound p hp
    omega
  · intro p hp
    rcases List.mem_append.1 hp with hp | hp
    · exact hbound p hp
    · rw [List.mem_singleton] at hp
      omega

/-- **A history built locally never goes back.** -/
theorem citesForward_of_localRun {changes : List LocalChange}
    (hrun : Run (LocalStep chan) ([], []) changes (P, M))
    (hU : Set.InjOn blake3 (policyPayloads P)) : CitesForward P M := by
  suffices h : (∃ p, derivePolicy chan P = .ok p) ∧
      (Set.InjOn blake3 (policyPayloads P) → CitesForward P M) from h.2 hU
  refine hrun.invariant
    (I := fun s => (∃ p, derivePolicy chan s.1 = .ok p) ∧
      (Set.InjOn blake3 (policyPayloads s.1) → CitesForward s.1 s.2)) ?_ ?_
  · rintro _ _ _ ⟨⟨p, hp⟩, hmono⟩ hstep
    cases hstep with
    | @policy P Q M p' hp' =>
      exact ⟨⟨p', hp'⟩, fun hU' =>
        citesForward_extend (hmono (hU'.mono policyPayloads_append_left)) Q⟩
    | @moderation P M signer now action e state hnext _ =>
      refine ⟨⟨p, hp⟩, fun hU' => ?_⟩
      obtain ⟨hne, hpos⟩ := policyPosition_next hU' hp hnext
      exact citesForward_concat (hmono hU') hne hpos
  · exact ⟨⟨.default, rfl⟩, fun _ => ⟨[], rfl, .nil, by simp⟩⟩

/-! ## What stays removed -/

/-- Whether an identity has moderation authority in the policy at a
position. -/
def ModeratesAt (chan : ChannelRef) (P : List PolicyEvent) (position : ℕ) (key : String) : Prop :=
  ∃ policy, derivePolicy chan (P.take (position + 1)) = .ok policy ∧
    policyAllowsModeration policy key = true

/-- Every event's actor moderates at the head it cites. -/
theorem moderatesAt_of_mem (hM : deriveModerationUnder chan P M = .ok state)
    {e : ModerationEvent} (he : e ∈ M) :
    ∃ position, policyPosition P e.policyHead = some position ∧
      ModeratesAt chan P position e.actor := by
  obtain ⟨position, policy, hcited, hallow⟩ := citedPolicy_of_mem hM he
  exact ⟨position, hcited.1, policy, hcited.2, hallow⟩

/-- **Moderation authority is authority at the citation.** In a moderation
history that derives, every event's actor was owner or moderator at the
very position the event cites. So where an event cites a position no
earlier than one before it does, its actor is no one who had authority at
none of the positions between the two; and that is every event of a
history which a node appended to by itself, from two empty histories,
however its policy grew in between. -/
theorem moderation_authority (hM : deriveModerationUnder chan P M = .ok state) :
    (∀ e ∈ M, ∃ position, policyPosition P e.policyHead = some position ∧
      ModeratesAt chan P position e.actor) ∧
    (∀ i j, i < j → ∀ (hi : i < M.length) (hj : j < M.length) (p q : ℕ) (key : String),
      policyPosition P M[i].policyHead = some p → policyPosition P M[j].policyHead = some q →
      p ≤ q → (∀ r, p ≤ r → r ≤ q → ¬ ModeratesAt chan P r key) → M[j].actor ≠ key) ∧
    (∀ changes, Run (LocalStep chan) ([], []) changes (P, M) →
      Set.InjOn blake3 (policyPayloads P) →
      ∀ i j, i < j → ∀ (hi : i < M.length) (hj : j < M.length) (p q : ℕ),
        policyPosition P M[i].policyHead = some p → policyPosition P M[j].policyHead = some q →
        p ≤ q) := by
  refine ⟨fun e he => moderatesAt_of_mem hM he, ?_, ?_⟩
  · rintro i j - hi hj p q key - hq hpq hremoved rfl
    obtain ⟨position, hposition, hmoderates⟩ := moderatesAt_of_mem hM (List.getElem_mem hj)
    obtain rfl : position = q := Option.some.inj (hposition.symm.trans hq)
    exact hremoved _ hpq le_rfl hmoderates
  · intro changes hrun hU i j hij hi hj p q hp hq
    exact (citesForward_of_localRun hrun hU).le hij.le hi hj hp hq

end Citations

/-! ## A revoked moderator's event -/

section Revoked

open Simulated

attribute [local instance] simulated

/-- The owner makes somebody moderator, and takes it back. -/
def appointAndRevoke : List (UInt8 × PolicyAction) :=
  [(1, .restrict (identity 1).publicKey), (1, .grant .moderator (identity 2).publicKey),
    (1, .revoke .moderator (identity 2).publicKey)]

/-- The policy the owner has, with these moderators. -/
def ownedPolicy (moderators : List String) : ChannelPolicy :=
  { ChannelPolicy.default with
    mode := .restricted, owner := some (identity 1).publicKey, moderators }

/-- The signed history of the three events. -/
def revokedHistory : List PolicyEvent := policyChain general none appointAndRevoke

/-- The owner moderates under the newest head. -/
def newestCitation : ModerationEvent :=
  moderationEvent general 1 0 none ((revokedHistory.getLast?.map PolicyEvent.id).getD "")
    (.tombstone (identity 9).publicKey none)

/-- And then the former moderator, under the head before the
revocation. -/
def earlierCitation : ModerationEvent :=
  moderationEvent general 2 0 (some newestCitation.id)
    (((revokedHistory.take 2).getLast?.map PolicyEvent.id).getD "")
    (.restore (identity 9).publicKey)

/-- The moderator is there until the last event. -/
theorem derivePolicy_revokedHistory :
    derivePolicy general (revokedHistory.take 2) = .ok (ownedPolicy [(identity 2).publicKey]) ∧
      derivePolicy general revokedHistory = .ok (ownedPolicy []) :=
  ⟨derivePolicy_policyChain general (appointAndRevoke.take 2) (by decide +kernel),
    derivePolicy_policyChain general appointAndRevoke (by decide +kernel)⟩

/-- The second event cites an earlier head than the first. -/
theorem citations_backdated :
    citations revokedHistory [newestCitation, earlierCitation] = [some 2, some 1] := by
  decide +kernel

/-- The history with that second event is accepted. -/
theorem exists_state_backdated :
    ∃ state, deriveModerationUnder general revokedHistory [newestCitation, earlierCitation] =
      .ok state := by
  have hcited := citations_backdated
  simp only [citations, List.map_cons, List.map_nil, List.cons.injEq, and_true] at hcited
  obtain ⟨hnewest, hearlier⟩ := hcited
  obtain ⟨hp, hp'⟩ := derivePolicy_revokedHistory
  obtain ⟨s, hs, hprev⟩ : ∃ s, deriveModerationStep general revokedHistory .start newestCitation =
      .ok s ∧ s.previous = some newestCitation.id :=
    ⟨_, deriveModerationStep_moderationEvent (s := .start) ⟨hnewest, hp'⟩
      (by simp [policyAllowsModeration, ownedPolicy]) rfl, rfl⟩
  obtain ⟨t, ht⟩ : ∃ t, deriveModerationStep general revokedHistory s earlierCitation = .ok t := by
    rw [earlierCitation, ← hprev]
    exact ⟨_, deriveModerationStep_moderationEvent ⟨hearlier, hp⟩
      (by simp [policyAllowsModeration, ownedPolicy]) rfl⟩
  exact ⟨_, deriveModerationUnder_ok.2 ⟨t, Replay.replay_cons_ok.2
    ⟨s, hs, Replay.replay_cons_ok.2 ⟨t, ht, rfl⟩⟩, rfl⟩⟩

/-- Once removed the moderator has no authority at any later head. -/
theorem not_moderatesAt_revoked {r : ℕ} (hr : 2 ≤ r) :
    ¬ ModeratesAt general revokedHistory r (identity 2).publicKey := by
  rintro ⟨policy, hpolicy, hallow⟩
  rw [List.take_of_length_le (by change 3 ≤ r + 1; omega), derivePolicy_revokedHistory.2] at hpolicy
  cases hpolicy
  revert hallow
  decide +kernel

/-- **Removed authority comes back by citation**: the second event cites
an earlier position than the first, and its actor has no authority at the
position the first one cites, nor at any later one. -/
theorem removed_authority_moderates :
    (∃ policy, derivePolicy general revokedHistory = .ok policy) ∧
      (∃ state, deriveModerationUnder general revokedHistory [newestCitation, earlierCitation] =
        .ok state) ∧
      citations revokedHistory [newestCitation, earlierCitation] = [some 2, some 1] ∧
      (∀ r ≥ 2, ¬ ModeratesAt general revokedHistory r (identity 2).publicKey) ∧
      [newestCitation, earlierCitation].map (·.actor) =
        [(identity 1).publicKey, (identity 2).publicKey] := by
  exact ⟨⟨_, derivePolicy_revokedHistory.2⟩, exists_state_backdated, citations_backdated,
    fun r hr => not_moderatesAt_revoked hr, rfl⟩

/-! ### A history built by one node -/

/-- What the node signs cites the newest head. -/
theorem nextModerationEvent_identity {P : List PolicyEvent} (hne : P ≠ [])
    (M : List ModerationEvent) (n : UInt8) (now : Int64) (action : ModerationAction) :
    nextModerationEvent general P M (identity n) now action =
      .ok (moderationEvent general n now (M.getLast?.map ModerationEvent.id)
        ((P.getLast?.map PolicyEvent.id).getD "") action) := by
  have hlast := List.getLast?_eq_some_getLast hne
  simp only [nextModerationEvent, signModerationEvent, hlast, orBail, pure_bind,
    signBytes_identity]
  rfl

/-- The moderator hides a message while they are one. -/
def byModerator : ModerationEvent :=
  moderationEvent general 2 0 none (((revokedHistory.take 2).getLast?.map PolicyEvent.id).getD "")
    (.tombstone (identity 9).publicKey none)

/-- After the revocation the owner brings it back, -/
def byOwner : ModerationEvent :=
  moderationEvent general 1 0 (some byModerator.id)
    ((revokedHistory.getLast?.map PolicyEvent.id).getD "") (.restore (identity 9).publicKey)

/-- and hides it again. -/
def byOwnerAgain : ModerationEvent :=
  moderationEvent general 1 0 (some byOwner.id)
    ((revokedHistory.getLast?.map PolicyEvent.id).getD "")
    (.tombstone (identity 9).publicKey none)

/-- Of what a node signs the citations go forward. -/
theorem citations_byNode :
    citations revokedHistory [byModerator, byOwner, byOwnerAgain] = [some 1, some 2, some 2] := by
  decide +kernel

/-- The three events have three hashes. -/
theorem injOn_revokedHistory : Set.InjOn blake3 (policyPayloads revokedHistory) := by
  have happart : ∀ e ∈ revokedHistory, ∀ e' ∈ revokedHistory,
      Simulated.hash e.payload.compact = Simulated.hash e'.payload.compact →
        e.payload.compact = e'.payload.compact := by
    decide +kernel
  rintro _ ⟨e, he, rfl⟩ _ ⟨e', he', rfl⟩ heq
  exact happart e he e' he' heq

/-- Each of the three is accepted behind those before it. -/
theorem exists_state_byNode :
    (∃ state, deriveModerationUnder general (revokedHistory.take 2) [byModerator] = .ok state) ∧
    (∃ state, deriveModerationUnder general revokedHistory [byModerator, byOwner] = .ok state) ∧
    ∃ state, deriveModerationUnder general revokedHistory [byModerator, byOwner, byOwnerAgain] =
      .ok state := by
  have hcited := citations_byNode
  simp only [citations, List.map_cons, List.map_nil, List.cons.injEq, and_true] at hcited
  obtain ⟨hfirst, hsecond, hthird⟩ := hcited
  obtain ⟨hp, hp'⟩ := derivePolicy_revokedHistory
  have hfirst' : policyPosition (revokedHistory.take 2) byModerator.policyHead = some 1 := by
    decide +kernel
  have hmoderator : policyAllowsModeration (ownedPolicy [(identity 2).publicKey])
      (identity 2).publicKey = true := by simp [policyAllowsModeration, ownedPolicy]
  have howner : policyAllowsModeration (ownedPolicy []) (identity 1).publicKey = true := by
    simp [policyAllowsModeration, ownedPolicy]
  obtain ⟨r, hr⟩ : ∃ r, deriveModerationStep general (revokedHistory.take 2) .start byModerator =
      .ok r := ⟨_, deriveModerationStep_moderationEvent (s := .start) ⟨hfirst', hp⟩ hmoderator rfl⟩
  obtain ⟨s, hs, hprev⟩ : ∃ s, deriveModerationStep general revokedHistory .start byModerator =
      .ok s ∧ s.previous = some byModerator.id :=
    ⟨_, deriveModerationStep_moderationEvent (s := .start) ⟨hfirst, hp⟩ hmoderator rfl, rfl⟩
  obtain ⟨t, ht, hprev'⟩ : ∃ t, deriveModerationStep general revokedHistory s byOwner = .ok t ∧
      t.previous = some byOwner.id := by
    rw [byOwner, ← hprev]
    exact ⟨_, deriveModerationStep_moderationEvent ⟨hsecond, hp'⟩ howner rfl, rfl⟩
  obtain ⟨u, hu⟩ : ∃ u, deriveModerationStep general revokedHistory t byOwnerAgain = .ok u := by
    rw [byOwnerAgain, ← hprev']
    exact ⟨_, deriveModerationStep_moderationEvent ⟨hthird, hp'⟩ howner rfl⟩
  exact ⟨⟨_, deriveModerationUnder_ok.2 ⟨r, Replay.replay_cons_ok.2 ⟨r, hr, rfl⟩, rfl⟩⟩,
    ⟨_, deriveModerationUnder_ok.2 ⟨t, Replay.replay_cons_ok.2
      ⟨s, hs, Replay.replay_cons_ok.2 ⟨t, ht, rfl⟩⟩, rfl⟩⟩,
    ⟨_, deriveModerationUnder_ok.2 ⟨u, Replay.replay_cons_ok.2 ⟨s, hs, Replay.replay_cons_ok.2
      ⟨t, ht, Replay.replay_cons_ok.2 ⟨u, hu, rfl⟩⟩⟩, rfl⟩⟩⟩

/-- The node's policy grows, the moderator hides the message, the policy
grows again, and the owner moderates. -/
theorem exists_run_byNode : ∃ changes, Run (LocalStep general) ([], []) changes
    (revokedHistory, [byModerator, byOwner, byOwnerAgain]) := by
  obtain ⟨⟨state₁, h₁⟩, ⟨state₂, h₂⟩, ⟨state₃, h₃⟩⟩ := exists_state_byNode
  obtain ⟨hp, hp'⟩ := derivePolicy_revokedHistory
  have hsplit : revokedHistory = revokedHistory.take 2 ++ revokedHistory.drop 2 :=
    (List.take_append_drop 2 _).symm
  have hne : revokedHistory ≠ [] := List.cons_ne_nil _ _
  have hne' : revokedHistory.take 2 ≠ [] := List.cons_ne_nil _ _
  have hgrows : LocalStep general (revokedHistory.take 2, [byModerator])
      (.policy (revokedHistory.drop 2)) (revokedHistory, [byModerator]) := by
    have hstep : LocalStep general (revokedHistory.take 2, [byModerator]) _ _ :=
      .policy (Q := revokedHistory.drop 2) (by rw [← hsplit]; exact hp')
    rwa [← hsplit] at hstep
  exact ⟨_, .snoc (.snoc (.snoc (.snoc (.snoc (.nil _) (.policy (P := []) hp))
    (.moderation (M := []) (nextModerationEvent_identity hne' _ 2 0 _) h₁)) hgrows)
    (.moderation (M := [byModerator]) (nextModerationEvent_identity hne _ 1 0 _) h₂))
    (.moderation (M := [byModerator, byOwner]) (nextModerationEvent_identity hne _ 1 0 _) h₃)⟩

/-- The law at that history: the moderator was one at the position their
event cites, they are not the author of the last event, and the positions
do not go back. -/
theorem moderation_authority_byNode :
    (∃ changes, Run (LocalStep general) ([], []) changes
      (revokedHistory, [byModerator, byOwner, byOwnerAgain])) ∧
    (∃ p, policyPosition revokedHistory byModerator.policyHead = some p ∧
      ModeratesAt general revokedHistory p (identity 2).publicKey) ∧
    byOwnerAgain.actor ≠ (identity 2).publicKey ∧
    ∀ p q, policyPosition revokedHistory byModerator.policyHead = some p →
      policyPosition revokedHistory byOwner.policyHead = some q → p ≤ q := by
  obtain ⟨-, -, state, hstate⟩ := exists_state_byNode
  obtain ⟨changes, hrun⟩ := exists_run_byNode
  have hcited := citations_byNode
  simp only [citations, List.map_cons, List.map_nil, List.cons.injEq, and_true] at hcited
  obtain ⟨-, hsecond, hthird⟩ := hcited
  obtain ⟨hauthority, hremoved, hforward⟩ := moderation_authority hstate
  obtain ⟨p, hp, hmoderates⟩ := hauthority byModerator (by simp)
  refine ⟨⟨changes, hrun⟩, ⟨p, hp, hmoderates⟩, ?_, ?_⟩
  · exact hremoved 1 2 (by omega) (by simp) (by simp) 2 2 _ hsecond hthird le_rfl
      fun r hr _ => not_moderatesAt_revoked hr
  · exact hforward changes hrun injOn_revokedHistory 0 1 (by omega) (by simp) (by simp)

end Revoked

end Embernet
