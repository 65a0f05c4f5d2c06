import Embernet.Store.Readable
/-!
# Extension — a longer policy, the same moderation

An event of the moderation history looks its head up in the policy history
there is when it is judged, which may have grown since it was written.
What it finds is the first event of that id, and the policy it is judged
by is what the events up to there derive. A history that grows behind
them changes neither.
-/

set_option autoImplicit false

namespace Embernet

open Primitives

section Extension

variable [Primitives] {chan : ChannelRef} {P Q : List PolicyEvent} {M : List ModerationEvent}
  {s : ModerationCursor} {e : ModerationEvent} {d d' : Datadir}

/-- The event cites a head of the history. -/
def CitesHead (P : List PolicyEvent) (e : ModerationEvent) : Prop :=
  ∃ p ∈ P, p.id = e.policyHead

omit [Primitives] in
theorem CitesHead.position (h : CitesHead P e) :
    ∃ position, policyPosition P e.policyHead = some position := by
  obtain ⟨p, hp, hid⟩ := h
  rw [← Option.isSome_iff_exists, policyPosition, List.findIdx?_isSome, List.any_eq_true]
  exact ⟨p, hp, by rw [hid]; exact beq_self_eq_true _⟩

/-- **An event is judged the same** by a history that has its head and by
any extension of it: admitted to the same state, or refused for the same
reason. -/
theorem deriveModerationStep_append (h : CitesHead P e) (Q : List PolicyEvent) :
    deriveModerationStep chan (P ++ Q) s e = deriveModerationStep chan P s e := by
  obtain ⟨position, hposition⟩ := h.position
  have htake : (P ++ Q).take (position + 1) = P.take (position + 1) :=
    List.take_append_of_le_length (Nat.succ_le_of_lt (policyPosition_lt hposition))
  rw [deriveModerationStep, deriveModerationStep, policyPosition_append hposition Q, hposition]
  -- the lookups succeed with the one position, and the replays are of the one prefix
  simp only [orBail, htake, pure_bind]

theorem replayModeration_append (h : ∀ e ∈ M, CitesHead P e) (Q : List PolicyEvent) :
    Replay.replay (deriveModerationStep chan (P ++ Q)) s M =
      Replay.replay (deriveModerationStep chan P) s M := by
  induction M generalizing s with
  | nil => rfl
  | cons e M ih =>
    have hrest : ∀ e ∈ M, CitesHead P e := fun e' he' => h e' (List.mem_cons_of_mem _ he')
    rw [Replay.replay_cons, Replay.replay_cons,
      deriveModerationStep_append (h e List.mem_cons_self) Q]
    congr 1
    funext t
    exact ih hrest

/-- So is a whole history that cites no other heads. -/
theorem deriveModerationUnder_append_eq (h : ∀ e ∈ M, CitesHead P e) (Q : List PolicyEvent) :
    deriveModerationUnder chan (P ++ Q) M = deriveModerationUnder chan P M := by
  rw [deriveModerationUnder, deriveModerationUnder, replayModeration, replayModeration,
    replayModeration_append h Q]

theorem deriveModeration_of_readPolicyHistory (hP : readPolicyHistory chan d = .ok P) :
    deriveModeration chan M d = deriveModerationUnder chan P M := by
  rw [deriveModeration, Query.bind_apply, hP]
  rfl

/-- **Later policy changes never rewrite moderation.** Where one node has a
policy history and another an extension of it, a moderation history that
the first accepts the second does, with the same state; each event that
cites a head of the shorter history is judged the same under both, from
any state and with any outcome; and so is, as a whole, a moderation
history of such events. -/
theorem moderation_extension (hP : readPolicyHistory chan d = .ok P)
    (hQ : readPolicyHistory chan d' = .ok (P ++ Q)) (M : List ModerationEvent) :
    (∀ state, deriveModeration chan M d = .ok state → deriveModeration chan M d' = .ok state) ∧
      (∀ e ∈ M, CitesHead P e → ∀ s,
        deriveModerationStep chan (P ++ Q) s e = deriveModerationStep chan P s e) ∧
      ((∀ e ∈ M, CitesHead P e) → deriveModeration chan M d' = deriveModeration chan M d) := by
  rw [deriveModeration_of_readPolicyHistory hP, deriveModeration_of_readPolicyHistory hQ]
  refine ⟨fun state h => ?_, fun e _ hcites s => ?_, fun hcites => ?_⟩
  · exact deriveModerationUnder_append h Q
  · exact deriveModerationStep_append hcites Q
  · exact deriveModerationUnder_append_eq hcites Q

end Extension

section Grown

open Simulated

attribute [local instance] simulated

/-- A node with this policy history. -/
noncomputable def nodeWith (P : List PolicyEvent) : Datadir :=
  newNode.put general.fullName { newDir with policyLog := some (policyCodec.records P) }

theorem readPolicyHistory_nodeWith {P : List PolicyEvent} {policy : ChannelPolicy}
    (h : derivePolicy general P = .ok policy) :
    readPolicyHistory general (nodeWith P) = .ok P := by
  have hdir : (nodeWith P).channels[general.fullName]? =
      some { newDir with policyLog := some (policyCodec.records P) } := getElem?_put_self _ _ _
  rw [readPolicyHistory_of_getElem? hdir]
  exact readPolicyLog_ok.2 ⟨Ndjson.parse_records policyCodec P, policy, h⟩

/-- The moderator tombstones a message, under the head that appoints
them. -/
def moderatorsTombstone : ModerationEvent :=
  moderationEvent general 2 0 none
    (((revokedHistory.take 2).getLast?.map PolicyEvent.id).getD "")
    (.tombstone (identity 9).publicKey none)

/-- The law where the owner takes the role back after the tombstone. -/
theorem moderation_extension_revoked :
    ∃ state,
      deriveModeration general [moderatorsTombstone] (nodeWith (revokedHistory.take 2)) =
        .ok state ∧
      deriveModeration general [moderatorsTombstone] (nodeWith revokedHistory) = .ok state := by
  obtain ⟨hP, hQ⟩ := derivePolicy_revokedHistory
  have hread := readPolicyHistory_nodeWith hP
  have hcited : CitedPolicy general (revokedHistory.take 2) moderatorsTombstone.policyHead 1
      (ownedPolicy [(identity 2).publicKey]) := ⟨by decide +kernel, hP⟩
  have hstep :
      deriveModerationStep general (revokedHistory.take 2) .start moderatorsTombstone = _ :=
    deriveModerationStep_moderationEvent hcited
      (by simp [policyAllowsModeration, ownedPolicy]) rfl
  obtain ⟨state, hderive⟩ : ∃ state, deriveModeration general [moderatorsTombstone]
      (nodeWith (revokedHistory.take 2)) = .ok state := by
    rw [deriveModeration_of_readPolicyHistory hread]
    exact ⟨_, deriveModerationUnder_ok.2 ⟨_, Replay.replay_cons_ok.2 ⟨_, hstep, rfl⟩, rfl⟩⟩
  have hread' := readPolicyHistory_nodeWith hQ
  rw [← List.take_append_drop 2 revokedHistory] at hread'
  have hlaw := (moderation_extension hread hread' [moderatorsTombstone]).1 _ hderive
  rw [List.take_append_drop] at hlaw
  exact ⟨_, hderive, hlaw⟩

end Grown

end Embernet
