import Embernet.Policy.Authority
/-!
# Revocation — what a revoked key can still do

A role's list is a list of texts, and a revocation takes the one text out
of it. Texts that spell the same bytes in other digits stay, and whoever
holds the key may sign under any of them: a revocation is complete where
the list had no other spelling.
-/

set_option autoImplicit false

namespace Embernet

variable {policy : ChannelPolicy} {role : PolicyRole} {key : String}

/-- The key, in this spelling, has the role. -/
def HasRole (policy : ChannelPolicy) (role : PolicyRole) (key : String) : Prop :=
  key ∈ policy.members role

/-- **What the roles allow**: to append, as owner, moderator or writer. -/
theorem policyAllowsAppend_iff : policyAllowsAppend policy key = true ↔
    policy.mode = .open_ ∨ policy.owner = some key ∨ HasRole policy .moderator key ∨
      HasRole policy .writer key := by
  simp [policyAllowsAppend, HasRole, ChannelPolicy.members, or_assoc]

/-- And to read, as any of them or as reader. -/
theorem policyAllowsRead_iff : policyAllowsRead policy key = true ↔
    policy.visibility = .public_ ∨ policy.owner = some key ∨ ∃ role, HasRole policy role key := by
  have hroles : (∃ role, HasRole policy role key) ↔
      HasRole policy .moderator key ∨ HasRole policy .writer key ∨ HasRole policy .reader key := by
    constructor
    · rintro ⟨role, h⟩
      cases role with
      | moderator => exact .inl h
      | writer => exact .inr (.inl h)
      | reader => exact .inr (.inr h)
    · rintro (h | h | h)
      · exact ⟨_, h⟩
      · exact ⟨_, h⟩
      · exact ⟨_, h⟩
  rw [hroles]
  simp [policyAllowsRead, HasRole, ChannelPolicy.members, or_assoc]

/-- Two texts that spell the bytes of one key. -/
def SameKey (key key' : String) : Prop :=
  ∃ bytes, hexDecode key = some bytes ∧ hexDecode key' = some bytes

/-- A revocation takes out the one text. -/
theorem hasRole_of_revoke {after : ChannelPolicy} {actor revoked : String}
    (h : applyPolicyAction policy actor (.revoke role revoked) = .ok after) :
    HasRole after role key ↔ HasRole policy role key ∧ key ≠ revoked := by
  simp only [applyPolicyAction, bind_eq_ok, pure_eq_ok] at h
  obtain ⟨_, -, rfl⟩ := h
  cases role <;> simp [HasRole, ChannelPolicy.members, ChannelPolicy.setMembers]

section History

variable [Primitives] {chan : ChannelRef} {P : List PolicyEvent} {e : PolicyEvent}
  {before after : ChannelPolicy}

/-- The last event of a history, between the policies before and after
it. -/
theorem derivePolicy_concat (hbefore : derivePolicy chan P = .ok before)
    (hafter : derivePolicy chan (P ++ [e]) = .ok after) :
    applyPolicyAction before e.actor e.action = .ok after := by
  obtain ⟨s, hs, rfl⟩ := derivePolicy_ok.1 hbefore
  obtain ⟨t, ht, rfl⟩ := derivePolicy_ok.1 hafter
  obtain ⟨s', hs', hstep⟩ := Replay.replay_concat_ok.1 ht
  obtain rfl : s = s' := Except.ok.inj (hs.symm.trans hs')
  exact (derivePolicyStep_ok.1 hstep).2.2.2.2.1

/-- **A revocation is complete** where the role's list has the key in no
other spelling, and nowhere else: after it no spelling of the key has the
role, exactly if before it none but the revoked one had. -/
theorem revocation_complete_iff {revoked : String} (hbefore : derivePolicy chan P = .ok before)
    (hafter : derivePolicy chan (P ++ [e]) = .ok after)
    (haction : e.action = .revoke role revoked) :
    (∀ k, SameKey k revoked → ¬ HasRole after role k) ↔
      ∀ k, HasRole before role k → SameKey k revoked → k = revoked := by
  have happly := derivePolicy_concat hbefore hafter
  rw [haction] at happly
  constructor
  · intro hnone k hk hsame
    by_contra hne
    exact hnone k hsame ((hasRole_of_revoke happly).2 ⟨hk, hne⟩)
  · intro honly k hsame hk
    obtain ⟨hk, hne⟩ := (hasRole_of_revoke happly).1 hk
    exact hne (honly k hk hsame)

end History

/-! ### A writer in capitals -/

section Capitals

open Simulated

attribute [local instance] simulated

/-- The owner makes somebody writer, by a key in capitals. -/
def writerGranted : List (UInt8 × PolicyAction) :=
  [(1, .restrict (identity 1).publicKey),
    (1, .grant .writer (upperCase (identity 0xab).publicKey))]

/-- And takes it back, by the key as the identity spells it. -/
def writerRevoked : List (UInt8 × PolicyAction) :=
  writerGranted ++ [(1, .revoke .writer (identity 0xab).publicKey)]

/-- The owner's policy, with these writers. -/
def writtenBy (writers : List String) : ChannelPolicy :=
  { ChannelPolicy.default with
    mode := .restricted, owner := some (identity 1).publicKey, writers }

theorem derivePolicy_writerGranted :
    derivePolicy general (policyChain general none writerGranted) =
      .ok (writtenBy [upperCase (identity 0xab).publicKey]) :=
  derivePolicy_policyChain general writerGranted (by decide +kernel)

theorem derivePolicy_writerRevoked :
    derivePolicy general (policyChain general none writerRevoked) =
      .ok (writtenBy [upperCase (identity 0xab).publicKey]) :=
  derivePolicy_policyChain general writerRevoked (by decide +kernel)

/-- The three events are the two and the revocation. -/
theorem policyChain_writerRevoked : ∃ e, e.action = .revoke .writer (identity 0xab).publicKey ∧
    policyChain general none writerRevoked = policyChain general none writerGranted ++ [e] :=
  ⟨_, rfl, rfl⟩

/-- **A revocation that does nothing**: the key is revoked, and in
capitals it may still append. -/
theorem revoked_key_appends : ∃ P e after key,
    derivePolicy general (P ++ [e]) = .ok after ∧
      e.action = .revoke .writer (identity 0xab).publicKey ∧
      SameKey key (identity 0xab).publicKey ∧ HasRole after .writer key ∧
      policyAllowsAppend after key = true := by
  obtain ⟨e, haction, hchain⟩ := policyChain_writerRevoked
  have hrole : HasRole (writtenBy [upperCase (identity 0xab).publicKey]) .writer
      (upperCase (identity 0xab).publicKey) := List.mem_singleton_self _
  refine ⟨_, e, _, _, hchain ▸ derivePolicy_writerRevoked, haction, ?_, hrole, ?_⟩
  · exact ⟨_, hexDecode_upperCase _, hexDecode_hexEncode _⟩
  · exact policyAllowsAppend_iff.2 (.inr (.inr (.inr hrole)))

/-- The law for that revocation. -/
theorem revocation_complete_iff_capitals : ∃ P e before after,
    derivePolicy general P = .ok before ∧ derivePolicy general (P ++ [e]) = .ok after ∧
      e.action = .revoke .writer (identity 0xab).publicKey ∧
      ((∀ k, SameKey k (identity 0xab).publicKey → ¬ HasRole after .writer k) ↔
        ∀ k, HasRole before .writer k → SameKey k (identity 0xab).publicKey →
          k = (identity 0xab).publicKey) := by
  obtain ⟨e, haction, hchain⟩ := policyChain_writerRevoked
  have hafter := derivePolicy_writerRevoked
  rw [hchain] at hafter
  exact ⟨_, e, _, _, derivePolicy_writerGranted, hafter, haction,
    revocation_complete_iff derivePolicy_writerGranted hafter haction⟩

end Capitals

end Embernet
