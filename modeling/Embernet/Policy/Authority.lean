import Embernet.Model.Simulated
/-!
# The policy authority chain — who changes what, over a whole history

One event does one of four things to a policy that is restricted, and
`Managed` says each with its guard. From it: the first event makes the
channel restricted and its actor the owner, no later one is of that kind,
and every later one is the owner's, or a moderator's about writers and
readers. Whoever is owner or moderator at some point was appointed, by a
chain of owners that begins with the first.
-/

set_option autoImplicit false

namespace Embernet

variable {policy policy' : ChannelPolicy} {actor : String} {action : PolicyAction}

@[simp] theorem setMembers_mode (members : List String) (role : PolicyRole) :
    (policy.setMembers members role).mode = policy.mode := by cases role <;> rfl

@[simp] theorem setMembers_owner (members : List String) (role : PolicyRole) :
    (policy.setMembers members role).owner = policy.owner := by cases role <;> rfl

@[simp] theorem setMembers_visibility (members : List String) (role : PolicyRole) :
    (policy.setMembers members role).visibility = policy.visibility := by cases role <;> rfl

@[simp] theorem setMembers_version (members : List String) (role : PolicyRole) :
    (policy.setMembers members role).version = policy.version := by cases role <;> rfl

/-- A role other than moderator has a list of its own. -/
theorem setMembers_moderators {role : PolicyRole} (members : List String)
    (hrole : role ≠ .moderator) :
    (policy.setMembers members role).moderators = policy.moderators := by
  cases role with
  | moderator => exact absurd rfl hrole
  | writer => rfl
  | reader => rfl

/-! ## One event -/

/-- Whether the actor may change who has a role: the owner may, and a
moderator may where the role is not a moderator's. -/
def MayManage (policy : ChannelPolicy) (actor : String) (role : PolicyRole) : Prop :=
  policy.owner = some actor ∨ (actor ∈ policy.moderators ∧ role ≠ .moderator)

theorem authorizePolicyChange_ok {role : PolicyRole} :
    authorizePolicyChange policy actor role = .ok () ↔
      policy.mode = .restricted ∧ MayManage policy actor role := by
  cases role <;>
    simp only [authorizePolicyChange, MayManage, bind_eq_ok, bailIf_eq_ok, not_not,
      Bool.and_eq_true, Bool.not_eq_true', beq_eq_false_iff_ne, List.any_eq_false, beq_iff_eq,
      not_and, not_forall] <;>
    grind

/-- **What an event does to a restricted policy.** -/
inductive Managed (policy : ChannelPolicy) (actor : String) :
    PolicyAction → ChannelPolicy → Prop
  | granted {role : PolicyRole} {key : String} : MayManage policy actor role →
      key ∈ policy.members role → Managed policy actor (.grant role key) policy
  | grant {role : PolicyRole} {key : String} : MayManage policy actor role →
      validatePublicKey key = .ok () →
      Managed policy actor (.grant role key)
        (policy.setMembers ((policy.members role ++ [key]).insertionSort (· ≤ ·)) role)
  | revoke {role : PolicyRole} {key : String} : MayManage policy actor role →
      Managed policy actor (.revoke role key)
        (policy.setMembers ((policy.members role).filter (· != key)) role)
  | transferOwner {newOwner : String} : policy.owner = some actor →
      validatePublicKey newOwner = .ok () →
      Managed policy actor (.transferOwner newOwner)
        { policy with
          owner := some newOwner
          moderators := policy.moderators.filter (· != newOwner)
          writers := policy.writers.filter (· != newOwner)
          readers := policy.readers.filter (· != newOwner) }
  | setVisibility {visibility : ChannelVisibility} : policy.owner = some actor →
      Managed policy actor (.setVisibility visibility) { policy with visibility }

theorem managed_of_ok (hmode : policy.mode = .restricted)
    (h : applyPolicyAction policy actor action = .ok policy') :
    Managed policy actor action policy' := by
  cases action with
  | restrict owner =>
    simp only [applyPolicyAction, bind_eq_ok, bailIf_eq_ok, hmode] at h
    obtain ⟨_, hopen, -⟩ := h
    exact absurd (Or.inl (by simp)) hopen
  | adopt adopted =>
    simp only [applyPolicyAction, bind_eq_ok, bailIf_eq_ok, hmode] at h
    obtain ⟨_, hopen, -⟩ := h
    exact absurd (Or.inl (by simp)) hopen
  | grant role key =>
    simp only [applyPolicyAction, bind_eq_ok] at h
    obtain ⟨_, hkey, _, hmay, h⟩ := h
    have hmay := (authorizePolicyChange_ok.1 hmay).2
    by_cases hmem : (policy.members role).contains key = true
    · rw [if_pos hmem] at h
      cases h
      exact .granted hmay (by simpa using hmem)
    · rw [if_neg hmem] at h
      cases h
      exact .grant hmay hkey
  | revoke role key =>
    simp only [applyPolicyAction, bind_eq_ok] at h
    obtain ⟨_, hmay, h⟩ := h
    cases h
    exact .revoke (authorizePolicyChange_ok.1 hmay).2
  | transferOwner newOwner =>
    simp only [applyPolicyAction, bind_eq_ok, bailIf_eq_ok, not_not] at h
    obtain ⟨_, hkey, _, howner, h⟩ := h
    cases h
    exact .transferOwner howner hkey
  | setVisibility visibility =>
    simp only [applyPolicyAction, bind_eq_ok, bailIf_eq_ok, not_not] at h
    obtain ⟨_, _, _, howner, h⟩ := h
    cases h
    exact .setVisibility howner

/-- The two actions that begin a history, with the owner they name. -/
def PolicyAction.founds : PolicyAction → Option String
  | .restrict owner => some owner
  | .adopt policy => policy.owner
  | _ => none

/-- Whether the action is of a kind that begins a history. -/
def PolicyAction.isFounding : PolicyAction → Bool
  | .restrict _ | .adopt _ => true
  | _ => false

namespace Managed

variable (h : Managed policy actor action policy')

include h

theorem not_isFounding : action.isFounding = false := by cases h <;> rfl

/-- The actor is the owner, or a moderator who grants or revokes the
writer or the reader role. -/
theorem authorized : policy.owner = some actor ∨
    (actor ∈ policy.moderators ∧ ∃ role key, role ≠ .moderator ∧
      (action = .grant role key ∨ action = .revoke role key)) := by
  cases h with
  | granted hmay _ =>
    exact hmay.imp_right fun ⟨hmod, hrole⟩ => ⟨hmod, _, _, hrole, Or.inl rfl⟩
  | grant hmay _ =>
    exact hmay.imp_right fun ⟨hmod, hrole⟩ => ⟨hmod, _, _, hrole, Or.inl rfl⟩
  | revoke hmay =>
    exact hmay.imp_right fun ⟨hmod, hrole⟩ => ⟨hmod, _, _, hrole, Or.inr rfl⟩
  | transferOwner howner _ => exact Or.inl howner
  | setVisibility howner => exact Or.inl howner

theorem mode_eq : policy'.mode = policy.mode := by cases h <;> simp

/-- Ownership, moderators and visibility are the owner's to change. -/
theorem unchanged (hactor : policy.owner ≠ some actor) :
    policy'.owner = policy.owner ∧ policy'.moderators = policy.moderators ∧
      policy'.visibility = policy.visibility := by
  cases h with
  | granted hmay _ => exact ⟨rfl, rfl, rfl⟩
  | grant hmay _ =>
    have hrole := (hmay.resolve_left hactor).2
    exact ⟨by simp, setMembers_moderators _ hrole, by simp⟩
  | revoke hmay =>
    have hrole := (hmay.resolve_left hactor).2
    exact ⟨by simp, setMembers_moderators _ hrole, by simp⟩
  | transferOwner howner _ => exact absurd howner hactor
  | setVisibility howner => exact absurd howner hactor

/-- Whoever has authority after the event had it before, or the event
names them and the owner made it. -/
theorem authority_origin {key : String}
    (hkey : policy'.owner = some key ∨ key ∈ policy'.moderators) :
    policy.owner = some key ∨ key ∈ policy.moderators ∨
      (policy.owner = some actor ∧
        (action = .grant .moderator key ∨ action = .transferOwner key)) := by
  cases h with
  | granted _ _ => exact hkey.imp_right Or.inl
  | @grant role k hmay _ =>
    rw [setMembers_owner] at hkey
    refine hkey.imp_right fun hmem => ?_
    by_cases hrole : role = .moderator
    · subst hrole
      have howner := hmay.resolve_right fun hmod => hmod.2 rfl
      have hmem' : key ∈ policy.moderators ++ [k] :=
        (List.perm_insertionSort _ _).mem_iff.1 hmem
      rcases List.mem_append.1 hmem' with hold | hnew
      · exact Or.inl hold
      · rw [List.mem_singleton] at hnew
        exact Or.inr ⟨howner, Or.inl (by rw [hnew])⟩
    · rw [setMembers_moderators _ hrole] at hmem
      exact Or.inl hmem
  | @revoke role k hmay =>
    rw [setMembers_owner] at hkey
    refine hkey.imp_right fun hmem => Or.inl ?_
    by_cases hrole : role = .moderator
    · subst hrole
      exact (List.mem_filter.1 hmem).1
    · rwa [setMembers_moderators _ hrole] at hmem
  | @transferOwner newOwner howner _ =>
    rcases hkey with hkey | hkey
    · cases hkey
      exact Or.inr (Or.inr ⟨howner, Or.inr rfl⟩)
    · exact Or.inr (Or.inl (List.mem_filter.1 hkey).1)
  | setVisibility _ => exact hkey.imp_right Or.inl

end Managed

/-- **What begins a history**: under the open policy nothing is allowed
but to restrict the channel, or to adopt a restricted policy, with the
actor as owner. -/
theorem founding_of_ok (h : applyPolicyAction .default actor action = .ok policy') :
    action.isFounding = true ∧ action.founds = some actor ∧
      policy'.mode = .restricted ∧ policy'.owner = some actor ∧
      ∀ key ∈ policy'.moderators, ∃ P, action = .adopt P ∧ key ∈ P.moderators := by
  cases action with
  | restrict owner =>
    simp only [applyPolicyAction, bind_eq_ok, bailIf_eq_ok, not_or, not_not] at h
    obtain ⟨_, ⟨-, rfl⟩, _, -, h⟩ := h
    cases h
    exact ⟨rfl, rfl, rfl, rfl, by simp [ChannelPolicy.default]⟩
  | adopt adopted =>
    simp only [applyPolicyAction, bind_eq_ok, bailIf_eq_ok, not_or, not_not] at h
    obtain ⟨_, ⟨-, hmode, howner⟩, h⟩ := h
    cases h
    exact ⟨rfl, howner, hmode, howner, fun key hkey => ⟨_, rfl, hkey⟩⟩
  | grant role key =>
    simp [applyPolicyAction, bind_eq_ok, authorizePolicyChange, ChannelPolicy.default] at h
  | revoke role key =>
    simp [applyPolicyAction, bind_eq_ok, authorizePolicyChange, ChannelPolicy.default] at h
  | transferOwner newOwner =>
    simp only [applyPolicyAction, bind_eq_ok, bailIf_eq_ok, not_not] at h
    obtain ⟨_, -, _, howner, -⟩ := h
    cases howner
  | setVisibility visibility =>
    simp only [applyPolicyAction, bind_eq_ok, bailIf_eq_ok, not_not] at h
    obtain ⟨_, hmode, -⟩ := h
    cases hmode

/-! ## Whole histories -/

section Histories

variable [Primitives] {chan : ChannelRef} {events : List PolicyEvent}

/-- The first event begins the history. -/
theorem founding_at_zero (h : derivePolicy chan events = .ok policy) (h0 : 0 < events.length) :
    ∃ p, derivePolicy chan (events.take 1) = .ok p ∧
      applyPolicyAction .default events[0].actor events[0].action = .ok p := by
  obtain ⟨p, p', hp, hp', happly⟩ := exists_policy_at h h0
  rw [List.take_zero, derivePolicy_nil] at hp
  cases hp
  exact ⟨p', hp', happly⟩

/-- **A history that has begun is restricted**, and stays so. -/
theorem restricted_of_derivePolicy (h : derivePolicy chan events = .ok policy)
    (hne : events ≠ []) : policy.mode = .restricted := by
  obtain ⟨e, events, rfl⟩ := List.exists_cons_of_ne_nil hne
  obtain ⟨s, hs, rfl⟩ := derivePolicy_ok.1 h
  obtain ⟨t, ht, hrest⟩ := Replay.replay_cons_ok.1 hs
  refine Replay.replay_invariant (I := fun s => s.policy.mode = .restricted) ?_ ?_ hrest
  · intro s e t hs hstep
    have hmanaged := managed_of_ok hs (derivePolicyStep_ok.1 hstep).2.2.2.2.1
    rw [hmanaged.mode_eq, hs]
  · exact (founding_of_ok (derivePolicyStep_ok.1 ht).2.2.2.2.1).2.2.1

/-- An event after the first, between the policies around it. -/
theorem managed_at (h : derivePolicy chan events = .ok policy) {i : ℕ} (hi : i < events.length)
    (hpos : 0 < i) :
    ∃ p p', derivePolicy chan (events.take i) = .ok p ∧
      derivePolicy chan (events.take (i + 1)) = .ok p' ∧
      Managed p events[i].actor events[i].action p' := by
  obtain ⟨p, p', hp, hp', happly⟩ := exists_policy_at h hi
  have hne : events.take i ≠ [] := by
    rw [← List.length_pos_iff, List.length_take]
    omega
  exact ⟨p, p', hp, hp', managed_of_ok (restricted_of_derivePolicy hp hne) happly⟩

/-- Whom the events before a position have given authority: the first
owner, the moderators of a policy the first owner adopted, and whoever an
owner named while owner. -/
inductive Appointed (chan : ChannelRef) (events : List PolicyEvent) : ℕ → String → Prop
  | founder (h0 : 0 < events.length) : Appointed chan events 1 events[0].actor
  | adopted (h0 : 0 < events.length) {P : ChannelPolicy} {key : String} :
      events[0].action = .adopt P → key ∈ P.moderators → Appointed chan events 1 key
  | named {i : ℕ} (hi : i < events.length) {p : ChannelPolicy} {key : String} :
      derivePolicy chan (events.take i) = .ok p → p.owner = some events[i].actor →
      Appointed chan events i events[i].actor →
      (events[i].action = .grant .moderator key ∨ events[i].action = .transferOwner key) →
      Appointed chan events (i + 1) key
  | later {i : ℕ} {key : String} : Appointed chan events i key → Appointed chan events (i + 1) key

/-- **No authority without appointment**: the owner and the moderators at
any position are appointed by the events before it. -/
theorem appointed_of_authority (h : derivePolicy chan events = .ok policy) {i : ℕ}
    (hi : i ≤ events.length) {p : ChannelPolicy}
    (hp : derivePolicy chan (events.take i) = .ok p) {key : String}
    (hkey : p.owner = some key ∨ key ∈ p.moderators) : Appointed chan events i key := by
  induction i generalizing p key with
  | zero =>
    rw [List.take_zero, derivePolicy_nil] at hp
    cases hp
    simp [ChannelPolicy.default] at hkey
  | succ i ih =>
    have hlt : i < events.length := by omega
    by_cases hpos : 0 < i
    · obtain ⟨q, q', hq, hq', hmanaged⟩ := managed_at h hlt hpos
      obtain rfl : q' = p := Except.ok.inj (hq'.symm.trans hp)
      rcases hmanaged.authority_origin hkey with howner | hmod | ⟨howner, hnamed⟩
      · exact .later (ih hlt.le hq (Or.inl howner))
      · exact .later (ih hlt.le hq (Or.inr hmod))
      · exact .named hlt hq howner (ih hlt.le hq (Or.inl howner)) hnamed
    · obtain rfl : i = 0 := by omega
      obtain ⟨q, hq, happly⟩ := founding_at_zero h hlt
      obtain rfl : q = p := Except.ok.inj (hq.symm.trans hp)
      obtain ⟨-, -, -, howner, hmods⟩ := founding_of_ok happly
      rcases hkey with hkey | hkey
      · rw [howner] at hkey
        cases hkey
        exact .founder hlt
      · obtain ⟨P, hP, hmem⟩ := hmods key hkey
        exact .adopted hlt hP hmem

/-- **The policy authority chain.** In a history that derives, the first
event restricts the channel or adopts a policy and names its own actor as
owner; no later event is of that kind; every later one is by the owner of
the policy before it, or by a moderator of it who grants or revokes the
writer or the reader role; owner, moderators and visibility change only
by the owner's hand; and whoever is owner or moderator at a position was
appointed by then. -/
theorem policy_authority_chain (h : derivePolicy chan events = .ok policy) :
    (∀ h0 : 0 < events.length, events[0].action.isFounding = true ∧
      events[0].action.founds = some events[0].actor) ∧
    (∀ i, ∀ hi : i < events.length, 0 < i → events[i].action.isFounding = false ∧
      ∃ p p', derivePolicy chan (events.take i) = .ok p ∧
        derivePolicy chan (events.take (i + 1)) = .ok p' ∧
        (p.owner = some events[i].actor ∨
          (events[i].actor ∈ p.moderators ∧ ∃ role key, role ≠ .moderator ∧
            (events[i].action = .grant role key ∨ events[i].action = .revoke role key))) ∧
        (p'.owner ≠ p.owner ∨ p'.moderators ≠ p.moderators ∨ p'.visibility ≠ p.visibility →
          p.owner = some events[i].actor)) ∧
    (∀ i ≤ events.length, ∀ p key, derivePolicy chan (events.take i) = .ok p →
      p.owner = some key ∨ key ∈ p.moderators → Appointed chan events i key) := by
  refine ⟨fun h0 => ?_, fun i hi hpos => ?_, fun i hi p key hp hkey => ?_⟩
  · obtain ⟨p, -, happly⟩ := founding_at_zero h h0
    exact ⟨(founding_of_ok happly).1, (founding_of_ok happly).2.1⟩
  · obtain ⟨p, p', hp, hp', hmanaged⟩ := managed_at h hi hpos
    refine ⟨hmanaged.not_isFounding, p, p', hp, hp', hmanaged.authorized, fun hchange => ?_⟩
    by_contra hactor
    obtain ⟨howner, hmods, hvis⟩ := hmanaged.unchanged hactor
    rcases hchange with hne | hne | hne
    · exact hne howner
    · exact hne hmods
    · exact hne hvis
  · exact appointed_of_authority h hi hp hkey

end Histories

section Example

open Simulated

attribute [local instance] simulated

/-- An owner, who names a moderator, who lets a writer in. -/
def threeAppointments : List (UInt8 × PolicyAction) :=
  [(1, .restrict (identity 1).publicKey), (1, .grant .moderator (identity 2).publicKey),
    (2, .grant .writer (identity 3).publicKey)]

/-- So the moderator it ends with was appointed. -/
theorem policy_authority_chain_threeAppointments :
    let events := policyChain general none threeAppointments
    (events.map (·.action.isFounding) = [true, false, false]) ∧
      Appointed general events 3 (identity 2).publicKey := by
  have h := derivePolicy_policyChain general threeAppointments
    (p := { ChannelPolicy.default with
      mode := .restricted
      owner := some (identity 1).publicKey
      moderators := [(identity 2).publicKey]
      writers := [(identity 3).publicKey] }) (by decide +kernel)
  have hchain := policy_authority_chain h
  exact ⟨rfl, hchain.2.2 3 le_rfl _ _ h (Or.inr List.mem_cons_self)⟩

end Example

end Embernet
