import Embernet.Model.Policy
/-!
# Moderation — what is hidden, and on whose authority

`store.rs`. Moderation events form a chain of their own. Each cites a head
of the policy history, and its actor must have been owner or moderator in
the policy there; the head is the actor's to choose.
-/

set_option autoImplicit false

namespace Embernet

variable [Primitives]

/-- What the signature of a moderation event covers. -/
def ModerationEvent.signed (e : ModerationEvent) : Bytes :=
  utf8 "embernet-moderation-v1\n" ++ e.payload.compact

/-- The id its payload gives an event. -/
def ModerationEvent.computedId (e : ModerationEvent) : String := hashHex e.payload.compact

/-- What `derive_moderation` carries from event to event. -/
structure ModerationCursor where
  state : ModerationState
  previous : Option String

/-- Before the first event. -/
def ModerationCursor.start : ModerationCursor := ⟨{}, none⟩

omit [Primitives] in
/-- The effect of one action. -/
def applyModerationAction (state : ModerationState) :
    ModerationAction → Except Error ModerationState
  | .tombstone target reason => do
    context "invalid tombstone target" (validatePublicKey target)
    pure { state with tombstoned := state.tombstoned.insert target reason }
  | .restore target => do
    context "invalid restore target" (validatePublicKey target)
    pure { state with tombstoned := state.tombstoned.erase target }

/-- Where the policy history has the head that an event cites. -/
def policyPosition (policyHistory : List PolicyEvent) (policyHead : String) : Option ℕ :=
  policyHistory.findIdx? (·.id == policyHead)

/-- One turn of the loop of `derive_moderation`. -/
def deriveModerationStep (chan : ChannelRef) (policyHistory : List PolicyEvent)
    (s : ModerationCursor) (event : ModerationEvent) : Except Error ModerationCursor := do
  bailIf (event.channel ≠ chan.fullName ∨ event.previous ≠ s.previous)
    [s!"invalid moderation event chain at {event.id}"]
  let position ← orBail [s!"unknown policy head {event.policyHead}"]
    (policyPosition policyHistory event.policyHead)
  -- the policy at the cited head, which need not be the newest
  let policy ← derivePolicy chan (policyHistory.take (position + 1))
  bailIf (policyAllowsModeration policy event.actor = false)
    [s!"actor {event.actor} is not allowed to moderate {chan.fullName}"]
  bailIf (event.id ≠ event.computedId) [s!"moderation event {event.id} has an invalid id"]
  context s!"verify moderation event {event.id}"
    (verifyBytes event.actor event.sig event.signed)
  let state ← applyModerationAction s.state event.action
  pure ⟨state, some event.id⟩

/-- The cursor after a history. -/
def replayModeration (chan : ChannelRef) (policyHistory : List PolicyEvent)
    (events : List ModerationEvent) : Except Error ModerationCursor :=
  Replay.replay (deriveModerationStep chan policyHistory) .start events

/-- `derive_moderation`, once the policy history is read. -/
def deriveModerationUnder (chan : ChannelRef) (policyHistory : List PolicyEvent)
    (events : List ModerationEvent) : Except Error ModerationState := do
  let s ← replayModeration chan policyHistory events
  pure s.state

/-- `sign_moderation_event`, at the clock `now`. -/
def signModerationEvent (chan : ChannelRef) (signer : KeypairFile) (now : Int64)
    (previous : Option String) (policyHead : String) (action : ModerationAction) :
    Except Error ModerationEvent := do
  let payload := moderationEventPayload chan.fullName signer.publicKey now previous policyHead action
  let sig ← signer.signBytes (utf8 "embernet-moderation-v1\n" ++ payload.compact)
  pure { id := hashHex payload.compact, channel := chan.fullName, actor := signer.publicKey,
         ts := now, previous, policyHead, action, sig }

/-- The event `append_moderation_action` adds, behind the events there
are: it cites the newest policy head. -/
def nextModerationEvent (chan : ChannelRef) (policyHistory : List PolicyEvent)
    (events : List ModerationEvent) (signer : KeypairFile) (now : Int64)
    (action : ModerationAction) : Except Error ModerationEvent := do
  -- a channel without a signed history is not moderated
  let head ← orBail ["moderation requires a signed restricted policy"] policyHistory.getLast?
  signModerationEvent chan signer now (events.getLast?.map ModerationEvent.id) head.id action

/-! ## What one event is -/

variable {chan : ChannelRef} {P : List PolicyEvent} {s t : ModerationCursor}
  {e : ModerationEvent} {M : List ModerationEvent} {state : ModerationState}

/-- The policy a moderation event cites. -/
def CitedPolicy (chan : ChannelRef) (P : List PolicyEvent) (policyHead : String) (position : ℕ)
    (policy : ChannelPolicy) : Prop :=
  policyPosition P policyHead = some position ∧
    derivePolicy chan (P.take (position + 1)) = .ok policy

/-- **What the loop admits**: an event of this channel that follows the
last one, whose id is its payload's, signed by its actor, who was owner
or moderator at the head it cites. -/
theorem deriveModerationStep_ok :
    deriveModerationStep chan P s e = .ok t ↔
      e.channel = chan.fullName ∧ e.previous = s.previous ∧
        (∃ position policy, CitedPolicy chan P e.policyHead position policy ∧
          policyAllowsModeration policy e.actor = true) ∧
        e.id = e.computedId ∧ verifyBytes e.actor e.sig e.signed = .ok () ∧
        applyModerationAction s.state e.action = .ok t.state ∧ t.previous = some e.id := by
  simp only [deriveModerationStep, CitedPolicy, bind_eq_ok, bailIf_eq_ok, orBail_eq_ok,
    context_eq_ok, pure_eq_ok, not_or, not_not, Bool.not_eq_false]
  constructor
  · rintro ⟨_, ⟨hc, hp⟩, pos, hpos, policy, hpolicy, _, hallow, _, hid, _, hv, st, hst, rfl⟩
    exact ⟨hc, hp, ⟨pos, policy, ⟨hpos, hpolicy⟩, hallow⟩, hid, hv, hst, rfl⟩
  · rintro ⟨hc, hp, ⟨pos, policy, ⟨hpos, hpolicy⟩, hallow⟩, hid, hv, hst, ht⟩
    exact ⟨(), ⟨hc, hp⟩, pos, hpos, policy, hpolicy, (), hallow, (), hid, (), hv, t.state, hst,
      by rw [← ht]⟩

theorem deriveModerationUnder_ok :
    deriveModerationUnder chan P M = .ok state ↔
      ∃ s, replayModeration chan P M = .ok s ∧ s.state = state := by
  simp only [deriveModerationUnder, bind_eq_ok, pure_eq_ok]

@[simp] theorem deriveModerationUnder_nil : deriveModerationUnder chan P [] = .ok {} := rfl

/-- **Every event's actor had authority where it cites.** -/
theorem citedPolicy_of_mem (h : deriveModerationUnder chan P M = .ok state) (he : e ∈ M) :
    ∃ position policy, CitedPolicy chan P e.policyHead position policy ∧
      policyAllowsModeration policy e.actor = true := by
  obtain ⟨s, hs, -⟩ := deriveModerationUnder_ok.1 h
  obtain ⟨i, hi, rfl⟩ := List.getElem_of_mem he
  obtain ⟨t, t', -, hstep, -⟩ := Replay.step_of_replay hs hi
  exact (deriveModerationStep_ok.1 hstep).2.2.1

/-! ## Growing policies -/

omit [Primitives] in
/-- A head keeps its position when the history grows. -/
theorem policyPosition_append {head : String} {position : ℕ}
    (h : policyPosition P head = some position) (Q : List PolicyEvent) :
    policyPosition (P ++ Q) head = some position := by
  rw [policyPosition, List.findIdx?_append, ← policyPosition, h]
  rfl

omit [Primitives] in
theorem policyPosition_lt {head : String} {position : ℕ}
    (h : policyPosition P head = some position) : position < P.length := by
  obtain ⟨hlt, -⟩ := List.findIdx?_eq_some_iff_getElem.1 h
  exact hlt

/-- The policy that is cited stays so when the policy history grows. -/
theorem CitedPolicy.append {head : String} {position : ℕ} {policy : ChannelPolicy}
    (h : CitedPolicy chan P head position policy) (Q : List PolicyEvent) :
    CitedPolicy chan (P ++ Q) head position policy := by
  refine ⟨policyPosition_append h.1 Q, ?_⟩
  rw [List.take_append_of_le_length (Nat.succ_le_of_lt (policyPosition_lt h.1))]
  exact h.2

/-- **The policies cited are all that moderation sees of a policy
history**: where another has the same policy at every head cited, the
moderation derives the same under it. -/
theorem deriveModerationUnder_of_cited {Q : List PolicyEvent}
    (hcited : ∀ e ∈ M, ∀ position policy, CitedPolicy chan P e.policyHead position policy →
      ∃ position', CitedPolicy chan Q e.policyHead position' policy)
    (h : deriveModerationUnder chan P M = .ok state) :
    deriveModerationUnder chan Q M = .ok state := by
  obtain ⟨s, hs, hstate⟩ := deriveModerationUnder_ok.1 h
  refine deriveModerationUnder_ok.2 ⟨s, ?_, hstate⟩
  clear h hstate
  revert hs
  rw [replayModeration, replayModeration]
  generalize ModerationCursor.start = start
  intro hs
  induction M generalizing start with
  | nil => exact hs
  | cons e M ih =>
    obtain ⟨t, ht, hrest⟩ := Replay.replay_cons_ok.1 hs
    refine Replay.replay_cons_ok.2
      ⟨t, ?_, ih (fun e' he' => hcited e' (List.mem_cons_of_mem _ he')) t hrest⟩
    obtain ⟨hc, hp, ⟨position, policy, hat, hallow⟩, hrest⟩ := deriveModerationStep_ok.1 ht
    obtain ⟨position', hat'⟩ := hcited e List.mem_cons_self position policy hat
    exact deriveModerationStep_ok.2 ⟨hc, hp, ⟨position', policy, hat', hallow⟩, hrest⟩

/-- **Extending the policy keeps the moderation**: a history that derives
under a policy history derives the same under any extension of it. -/
theorem deriveModerationUnder_append (h : deriveModerationUnder chan P M = .ok state)
    (Q : List PolicyEvent) : deriveModerationUnder chan (P ++ Q) M = .ok state :=
  deriveModerationUnder_of_cited (fun _ _ position _ hat => ⟨position, hat.append Q⟩) h

end Embernet
