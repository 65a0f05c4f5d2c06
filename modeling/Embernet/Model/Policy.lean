import Mathlib.Data.List.Sort
import Embernet.Lib.Replay
import Embernet.Model.Proto
/-!
# Policy — who may read, write and manage a channel

`store.rs`. A channel's policy is what its signed history derives: every
event names its predecessor, carries the hash of its own payload and a
signature by its actor, and is applied under the policy before it.
-/

set_option autoImplicit false

namespace Embernet

variable [Primitives]

omit [Primitives] in
/-- `validate_public_key`: the hexadecimal form of 32 bytes. -/
def validatePublicKey (key : String) : Except Error Unit := do
  let bytes ← orBail ["public key must be hexadecimal"] (hexDecode key)
  bailIf (bytes.length ≠ 32) ["public key must encode 32 bytes"]

/-- `policy_allows_read`. -/
def policyAllowsRead (policy : ChannelPolicy) (publicKey : String) : Bool :=
  policy.visibility == .public_
    || policy.owner == some publicKey
    || policy.moderators.any (· == publicKey)
    || policy.writers.any (· == publicKey)
    || policy.readers.any (· == publicKey)

/-- The check of `authorize_append`. -/
def policyAllowsAppend (policy : ChannelPolicy) (author : String) : Bool :=
  policy.mode == .open_
    || policy.owner == some author
    || policy.moderators.any (· == author)
    || policy.writers.any (· == author)

/-- The check of `derive_moderation`. -/
def policyAllowsModeration (policy : ChannelPolicy) (actor : String) : Bool :=
  policy.owner == some actor || policy.moderators.any (· == actor)

/-- `authorize_policy_change`. -/
def authorizePolicyChange (policy : ChannelPolicy) (actor : String) (role : PolicyRole) :
    Except Error Unit := do
  bailIf (policy.mode ≠ .restricted) ["channel must be restricted before roles can be changed"]
  let owner := policy.owner == some actor
  let moderator := policy.moderators.any (· == actor)
  match role with
  | .moderator => bailIf (!owner) ["only the owner can manage moderators"]
  | .writer => bailIf (!owner && !moderator) ["only the owner or a moderator can manage writers"]
  | .reader => bailIf (!owner && !moderator) ["only the owner or a moderator can manage readers"]

/-- The list of a policy that a role names. -/
def ChannelPolicy.members (policy : ChannelPolicy) : PolicyRole → List String
  | .moderator => policy.moderators
  | .writer => policy.writers
  | .reader => policy.readers

/-- The policy with that list replaced. -/
def ChannelPolicy.setMembers (policy : ChannelPolicy) (members : List String) :
    PolicyRole → ChannelPolicy
  | .moderator => { policy with moderators := members }
  | .writer => { policy with writers := members }
  | .reader => { policy with readers := members }

/-- `apply_policy_action`. -/
def applyPolicyAction (policy : ChannelPolicy) (actor : String) :
    PolicyAction → Except Error ChannelPolicy
  | .restrict owner => do
    bailIf (policy.mode ≠ .open_ ∨ owner ≠ actor) ["invalid restrict policy event"]
    validatePublicKey owner
    pure { policy with mode := .restricted, owner := some owner }
  | .adopt adopted => do
    bailIf (policy.mode ≠ .open_ ∨ adopted.mode ≠ .restricted ∨ adopted.owner ≠ some actor)
      ["invalid legacy policy adoption"]
    -- taken over as it is: nothing looks at the keys in its lists
    pure adopted
  | .grant role publicKey => do
    validatePublicKey publicKey
    authorizePolicyChange policy actor role
    let members := policy.members role
    -- by the text of the key, as in the filters below
    if members.contains publicKey then pure policy
    else pure (policy.setMembers ((members ++ [publicKey]).insertionSort (· ≤ ·)) role)
  -- the key is not validated here, and another spelling of it stays
  | .revoke role publicKey => do
    authorizePolicyChange policy actor role
    pure (policy.setMembers ((policy.members role).filter (· != publicKey)) role)
  | .transferOwner newOwner => do
    validatePublicKey newOwner
    bailIf (policy.owner ≠ some actor) ["only the owner can transfer ownership"]
    -- the new owner leaves the lists, and the old one gets on none
    pure { policy with
      owner := some newOwner
      moderators := policy.moderators.filter (· != newOwner)
      writers := policy.writers.filter (· != newOwner)
      readers := policy.readers.filter (· != newOwner) }
  | .setVisibility visibility => do
    bailIf (policy.mode ≠ .restricted)
      ["channel must be restricted before visibility can be changed"]
    bailIf (policy.owner ≠ some actor) ["only the owner can change channel visibility"]
    pure { policy with visibility }

/-! ## Histories -/

/-- What the signature of a policy event covers. -/
def PolicyEvent.signed (e : PolicyEvent) : Bytes :=
  utf8 "embernet-policy-v1\n" ++ e.payload.compact

/-- The id its payload gives an event. -/
def PolicyEvent.computedId (e : PolicyEvent) : String := hashHex e.payload.compact

/-- What `derive_policy` carries from event to event: the policy so far
and the id of the last event. -/
structure PolicyCursor where
  policy : ChannelPolicy
  previous : Option String
  deriving DecidableEq

/-- Before the first event. -/
def PolicyCursor.start : PolicyCursor := ⟨.default, none⟩

/-- One turn of the loop of `derive_policy`. -/
def derivePolicyStep (chan : ChannelRef) (s : PolicyCursor) (event : PolicyEvent) :
    Except Error PolicyCursor := do
  bailIf (event.channel ≠ chan.fullName ∨ event.previous ≠ s.previous)
    [s!"invalid policy event chain at {event.id}"]
  bailIf (event.id ≠ event.computedId) [s!"policy event {event.id} has an invalid id"]
  context s!"verify policy event {event.id}" (verifyBytes event.actor event.sig event.signed)
  -- allowed or not by the policy before the event
  let policy ← applyPolicyAction s.policy event.actor event.action
  pure ⟨policy, some event.id⟩

/-- The cursor after a history. -/
def replayPolicy (chan : ChannelRef) (events : List PolicyEvent) : Except Error PolicyCursor :=
  Replay.replay (derivePolicyStep chan) .start events

/-- `derive_policy`, and `validate_policy_history`. -/
def derivePolicy (chan : ChannelRef) (events : List PolicyEvent) :
    Except Error ChannelPolicy := do
  let s ← replayPolicy chan events
  pure s.policy

/-- `sign_policy_event`, at the clock `now`. -/
def signPolicyEvent (chan : ChannelRef) (signer : KeypairFile) (now : Int64)
    (previous : Option String) (action : PolicyAction) : Except Error PolicyEvent := do
  let payload := policyEventPayload chan.fullName signer.publicKey now previous action
  let sig ← signer.signBytes (utf8 "embernet-policy-v1\n" ++ payload.compact)
  pure { id := hashHex payload.compact, channel := chan.fullName, actor := signer.publicKey,
         ts := now, previous, action, sig }

/-! ## What one event is -/

variable {chan : ChannelRef} {s t : PolicyCursor} {e : PolicyEvent} {events : List PolicyEvent}
  {policy : ChannelPolicy}

/-- **What the loop admits**: an event of this channel that follows the
last one, whose id is its payload's, signed by its actor, and allowed by
the policy before it. -/
theorem derivePolicyStep_ok :
    derivePolicyStep chan s e = .ok t ↔
      e.channel = chan.fullName ∧ e.previous = s.previous ∧ e.id = e.computedId ∧
        verifyBytes e.actor e.sig e.signed = .ok () ∧
        applyPolicyAction s.policy e.actor e.action = .ok t.policy ∧
        t.previous = some e.id := by
  simp only [derivePolicyStep, bind_eq_ok, bailIf_eq_ok, context_eq_ok, pure_eq_ok, not_or,
    not_not]
  constructor
  · rintro ⟨_, ⟨hc, hp⟩, _, hid, _, hv, p, hp', rfl⟩
    exact ⟨hc, hp, hid, hv, hp', rfl⟩
  · rintro ⟨hc, hp, hid, hv, hp', ht⟩
    exact ⟨(), ⟨hc, hp⟩, (), hid, (), hv, t.policy, hp', by rw [← ht]⟩

theorem derivePolicy_ok :
    derivePolicy chan events = .ok policy ↔
      ∃ s, replayPolicy chan events = .ok s ∧ s.policy = policy := by
  simp only [derivePolicy, bind_eq_ok, pure_eq_ok]

@[simp] theorem derivePolicy_nil : derivePolicy chan [] = .ok .default := rfl

/-- Prefixes of a history that derives do. -/
theorem exists_derivePolicy_of_prefix {xs ys : List PolicyEvent} (hpre : xs <+: ys)
    (h : derivePolicy chan ys = .ok policy) : ∃ p, derivePolicy chan xs = .ok p := by
  obtain ⟨s, hs, -⟩ := derivePolicy_ok.1 h
  obtain ⟨t, ht⟩ := Replay.exists_replay_of_prefix hpre hs
  exact ⟨t.policy, derivePolicy_ok.2 ⟨t, ht, rfl⟩⟩

/-- The cursor stands at the last event. -/
theorem previous_replayPolicy (h : replayPolicy chan events = .ok s) :
    s.previous = events.getLast?.map PolicyEvent.id := by
  have := Replay.cursor_replay PolicyEvent.id PolicyCursor.previous
    (fun hstep => (derivePolicyStep_ok.1 hstep).2.2.2.2.2) h
  rw [this]
  cases events.getLast? <;> rfl

/-- **One event of a history**, between the policies before and after
it. -/
theorem exists_policy_at (h : derivePolicy chan events = .ok policy) {i : ℕ}
    (hi : i < events.length) :
    ∃ p p', derivePolicy chan (events.take i) = .ok p ∧
      derivePolicy chan (events.take (i + 1)) = .ok p' ∧
      applyPolicyAction p events[i].actor events[i].action = .ok p' := by
  obtain ⟨s, hs, -⟩ := derivePolicy_ok.1 h
  obtain ⟨t, t', ht, hstep, ht'⟩ := Replay.step_of_replay hs hi
  exact ⟨t.policy, t'.policy, derivePolicy_ok.2 ⟨t, ht, rfl⟩, derivePolicy_ok.2 ⟨t', ht', rfl⟩,
    (derivePolicyStep_ok.1 hstep).2.2.2.2.1⟩

/-- Every event of a history that derives carries its payload's id, a
signature by its actor, and this channel's name. -/
theorem mem_of_derivePolicy (h : derivePolicy chan events = .ok policy) (he : e ∈ events) :
    e.channel = chan.fullName ∧ e.id = e.computedId ∧
      verifyBytes e.actor e.sig e.signed = .ok () := by
  obtain ⟨s, hs, -⟩ := derivePolicy_ok.1 h
  obtain ⟨i, hi, rfl⟩ := List.getElem_of_mem he
  obtain ⟨t, t', -, hstep, -⟩ := Replay.step_of_replay hs hi
  have := derivePolicyStep_ok.1 hstep
  exact ⟨this.1, this.2.2.1, this.2.2.2.1⟩

end Embernet
