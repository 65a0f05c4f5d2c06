import Embernet.Model.PolicyStore
import Embernet.Moderation.Citation
import Embernet.Policy.Authority
import Mathlib.Data.List.Induction
/-!
# Well-formed policies — what a history derives, and the cache admits

The reader of `policy.json` and the interpreter of policy events check the
same things in two places. What an event changes it checks, and it leaves
the role lists sorted; but an adoption takes a whole policy in and looks at
its mode and its owner only. So a history derives well-formed policies, from
its first event to its last, exactly if the policies it adopts are.
-/

set_option autoImplicit false

namespace Embernet

open Primitives

/-- The policy passes the checks of the cache reader, and its lists are in
order, with no key twice. -/
structure WellFormed (policy : ChannelPolicy) : Prop where
  checked : checkPolicyCache policy = .ok policy
  sorted : ∀ role, (policy.members role).Pairwise (· < ·)

section Policies

variable {policy policy' : ChannelPolicy} {actor : String} {action : PolicyAction}

/-! ## The checks, one by one -/

/-- The keys that a policy names. -/
def ChannelPolicy.Names (policy : ChannelPolicy) (key : String) : Prop :=
  policy.owner = some key ∨ ∃ role, key ∈ policy.members role

/-- What the cache reader checks. -/
structure Checked (policy : ChannelPolicy) : Prop where
  version : policy.version = 1
  owned : policy.mode = .restricted → policy.owner ≠ none
  keys : ∀ key, policy.Names key → validatePublicKey key = .ok ()
  restricted : policy.visibility = .private_ → policy.mode = .restricted

theorem forM_eq_ok {α : Type} {f : α → Except Error Unit} {xs : List α} :
    xs.forM f = .ok () ↔ ∀ x ∈ xs, f x = .ok () := by
  induction xs with
  | nil => simp
  | cons x xs ih =>
    rw [List.forM_eq_forM, List.forM_cons, bind_eq_ok, ← List.forM_eq_forM]
    simp only [List.mem_cons, forall_eq_or_imp, ← ih]
    constructor
    · rintro ⟨_, hx, hxs⟩
      exact ⟨hx, hxs⟩
    · rintro ⟨hx, hxs⟩
      exact ⟨(), hx, hxs⟩

theorem names_iff {key : String} : policy.Names key ↔
    key ∈ policy.owner.toList ++ policy.moderators ++ policy.writers ++ policy.readers := by
  simp only [ChannelPolicy.Names, List.mem_append, Option.mem_toList, or_assoc]
  refine or_congr Iff.rfl ⟨?_, ?_⟩
  · rintro ⟨role, hmem⟩
    cases role with
    | moderator => exact .inl hmem
    | writer => exact .inr (.inl hmem)
    | reader => exact .inr (.inr hmem)
  · rintro (hmem | hmem | hmem)
    · exact ⟨.moderator, hmem⟩
    · exact ⟨.writer, hmem⟩
    · exact ⟨.reader, hmem⟩

theorem checkPolicyCache_ok : checkPolicyCache policy = .ok policy ↔ Checked policy := by
  simp only [checkPolicyCache, bind_eq_ok, bailIf_eq_ok, not_not, pure_eq_ok, and_true]
  constructor
  · rintro ⟨_, hversion, _, howned, _, hkeys, _, hprivate⟩
    exact ⟨hversion, fun hmode hnone => howned ⟨hmode, hnone⟩,
      fun key hkey => forM_eq_ok.1 hkeys key (names_iff.1 hkey),
      fun hvisibility => not_not.1 fun hmode => hprivate ⟨hvisibility, hmode⟩⟩
  · intro h
    exact ⟨(), h.version, (), fun hb => h.owned hb.1 hb.2, (),
      forM_eq_ok.2 fun key hkey => h.keys key (names_iff.2 hkey), (),
      fun hb => hb.2 (h.restricted hb.1)⟩

/-- What the reader of the policy file gives back is what it holds. -/
theorem checkPolicyCache_eq (h : checkPolicyCache policy = .ok policy') : policy = policy' := by
  simp only [checkPolicyCache, bind_eq_ok, pure_eq_ok] at h
  obtain ⟨_, -, _, -, _, -, _, -, rfl⟩ := h
  rfl

/-- A well-formed policy is read back from the file it is written to. -/
theorem WellFormed.readPolicyCache (h : WellFormed policy) {dir : Dir}
    (hfile : dir.policyJson = .value policy) : Embernet.readPolicyCache dir = .ok policy := by
  rw [Embernet.readPolicyCache, hfile]
  exact h.checked

theorem wellFormed_default : WellFormed .default := by
  refine ⟨checkPolicyCache_ok.2 ⟨rfl, nofun, ?_, nofun⟩, ?_⟩
  · rintro key (howner | ⟨role, hmem⟩)
    · cases howner
    · cases role <;> cases hmem
  · intro role
    cases role <;> exact .nil

/-! ## One action -/

theorem members_setMembers (members : List String) (role role' : PolicyRole) :
    (policy.setMembers members role).members role' =
      if role' = role then members else policy.members role' := by
  cases role <;> cases role' <;> rfl

/-- Other lists, whose keys are named already or checked. -/
theorem WellFormed.setMembers (h : WellFormed policy) {members : List String} {role : PolicyRole}
    (hkeys : ∀ key ∈ members, key ∈ policy.members role ∨ validatePublicKey key = .ok ())
    (hsorted : members.Pairwise (· < ·)) : WellFormed (policy.setMembers members role) := by
  have hchecked := checkPolicyCache_ok.1 h.checked
  refine ⟨checkPolicyCache_ok.2 ⟨?_, ?_, ?_, ?_⟩, fun role' => ?_⟩
  · rw [setMembers_version]
    exact hchecked.version
  · rw [setMembers_mode, setMembers_owner]
    exact hchecked.owned
  · rintro key (howner | ⟨role', hmem⟩)
    · exact hchecked.keys key (.inl (by rwa [setMembers_owner] at howner))
    · rw [members_setMembers] at hmem
      split at hmem
      · rcases hkeys key hmem with hold | hvalid
        · exact hchecked.keys key (.inr ⟨role, hold⟩)
        · exact hvalid
      · exact hchecked.keys key (.inr ⟨role', hmem⟩)
  · rw [setMembers_visibility, setMembers_mode]
    exact hchecked.restricted
  · rw [members_setMembers]
    split
    · exact hsorted
    · exact h.sorted role'

/-- A key that is not there yet, sorted in. -/
theorem pairwise_lt_insertionSort {members : List String} {key : String}
    (hsorted : members.Pairwise (· < ·)) (hnew : key ∉ members) :
    ((members ++ [key]).insertionSort (· ≤ ·)).Pairwise (· < ·) := by
  have hnodup : (members ++ [key]).Nodup := by
    rw [List.nodup_append]
    have hne : members.Nodup := hsorted.imp fun {a b} h => by
      rintro rfl
      exact String.lt_irrefl a h
    refine ⟨hne, List.nodup_singleton _, ?_⟩
    rintro a ha b hb rfl
    rw [List.mem_singleton] at hb
    exact hnew (hb ▸ ha)
  have hle : ((members ++ [key]).insertionSort (· ≤ ·)).Pairwise (· ≤ ·) :=
    List.pairwise_insertionSort _ _
  have hne := (List.perm_insertionSort (· ≤ ·) (members ++ [key])).nodup_iff.2 hnodup
  refine (hle.and hne).imp fun {a b} ⟨hle, hne⟩ => ?_
  by_contra hlt
  exact hne (String.le_antisymm hle (String.not_lt.1 hlt))

/-- **What an action makes of a well-formed policy is well formed**, unless
it adopts one that is not. -/
theorem WellFormed.apply (h : WellFormed policy)
    (hadopt : ∀ adopted, action = .adopt adopted → WellFormed adopted)
    (happly : applyPolicyAction policy actor action = .ok policy') : WellFormed policy' := by
  have hchecked := checkPolicyCache_ok.1 h.checked
  cases action with
  | restrict owner =>
    simp only [applyPolicyAction, bind_eq_ok] at happly
    obtain ⟨_, -, _, hkey, happly⟩ := happly
    cases happly
    refine ⟨checkPolicyCache_ok.2 ⟨hchecked.version, by rintro - ⟨⟩, ?_, fun _ => rfl⟩, ?_⟩
    · rintro key (howner | ⟨role, hmem⟩)
      · cases howner
        exact hkey
      · exact hchecked.keys key (.inr ⟨role, by cases role <;> exact hmem⟩)
    · intro role
      cases role with
      | moderator => exact h.sorted .moderator
      | writer => exact h.sorted .writer
      | reader => exact h.sorted .reader
  | adopt adopted =>
    simp only [applyPolicyAction, bind_eq_ok] at happly
    obtain ⟨_, -, happly⟩ := happly
    obtain rfl := pure_eq_ok.1 happly
    exact hadopt _ rfl
  | grant role key =>
    simp only [applyPolicyAction, bind_eq_ok] at happly
    obtain ⟨_, hkey, _, -, happly⟩ := happly
    by_cases hmem : (policy.members role).contains key = true
    · rw [if_pos hmem] at happly
      cases happly
      exact h
    · rw [if_neg hmem] at happly
      cases happly
      refine h.setMembers (fun k hk => ?_) (pairwise_lt_insertionSort (h.sorted role) ?_)
      · rcases List.mem_append.1 ((List.perm_insertionSort _ _).mem_iff.1 hk) with hold | hnew
        · exact .inl hold
        · exact .inr (List.mem_singleton.1 hnew ▸ hkey)
      · simpa using hmem
  | revoke role key =>
    simp only [applyPolicyAction, bind_eq_ok] at happly
    obtain ⟨_, -, happly⟩ := happly
    cases happly
    exact h.setMembers (fun k hk => .inl (List.mem_filter.1 hk).1) ((h.sorted role).filter _)
  | transferOwner newOwner =>
    simp only [applyPolicyAction, bind_eq_ok] at happly
    obtain ⟨_, hkey, _, -, happly⟩ := happly
    cases happly
    refine ⟨checkPolicyCache_ok.2 ⟨hchecked.version, by rintro - ⟨⟩, ?_, hchecked.restricted⟩, ?_⟩
    · rintro key (howner | ⟨role, hmem⟩)
      · cases howner
        exact hkey
      · refine hchecked.keys key (.inr ⟨role, ?_⟩)
        cases role <;> exact (List.mem_filter.1 hmem).1
    · intro role
      cases role with
      | moderator => exact (h.sorted .moderator).filter _
      | writer => exact (h.sorted .writer).filter _
      | reader => exact (h.sorted .reader).filter _
  | setVisibility visibility =>
    simp only [applyPolicyAction, bind_eq_ok, bailIf_eq_ok, not_not] at happly
    obtain ⟨_, hmode, _, -, happly⟩ := happly
    cases happly
    refine ⟨checkPolicyCache_ok.2 ⟨hchecked.version, hchecked.owned, ?_, fun _ => hmode⟩, ?_⟩
    · rintro key (howner | ⟨role, hmem⟩)
      · exact hchecked.keys key (.inl howner)
      · exact hchecked.keys key (.inr ⟨role, by cases role <;> exact hmem⟩)
    · intro role
      cases role with
      | moderator => exact h.sorted .moderator
      | writer => exact h.sorted .writer
      | reader => exact h.sorted .reader

/-- An adoption leads to what it adopts. -/
theorem eq_of_adopt {adopted : ChannelPolicy}
    (happly : applyPolicyAction policy actor (.adopt adopted) = .ok policy') :
    policy' = adopted := by
  simp only [applyPolicyAction, bind_eq_ok] at happly
  obtain ⟨_, -, happly⟩ := happly
  exact (pure_eq_ok.1 happly).symm

end Policies

/-! ## Whole histories -/

section Histories

variable [Primitives] {chan : ChannelRef} {events : List PolicyEvent} {policy : ChannelPolicy}

/-- The history adopts well-formed policies only. -/
def AdoptsWellFormed (events : List PolicyEvent) : Prop :=
  ∀ e ∈ events, ∀ adopted, e.action = .adopt adopted → WellFormed adopted

theorem wellFormed_of_derivePolicy (h : derivePolicy chan events = .ok policy)
    (hadopts : AdoptsWellFormed events) : WellFormed policy := by
  induction events using List.reverseRecOn generalizing policy with
  | nil =>
    rw [derivePolicy_nil] at h
    cases h
    exact wellFormed_default
  | append_singleton events e ih =>
    obtain ⟨t, ht, rfl⟩ := derivePolicy_ok.1 h
    obtain ⟨s, hs, hstep⟩ := Replay.replay_concat_ok.1 ht
    have hinit := ih (derivePolicy_ok.2 ⟨s, hs, rfl⟩)
      fun e' he' => hadopts e' (List.mem_append_left _ he')
    exact hinit.apply (hadopts e (List.mem_append_right _ (List.mem_singleton_self e)))
      (derivePolicyStep_ok.1 hstep).2.2.2.2.1

/-- **Accepted policies are well formed exactly if the adopted ones are.**
Of a history that is accepted, and so is every part of it from the start:
the policy after each of its events passes the checks of the cache reader
and has its lists sorted without repetition, exactly if every policy that
an event adopts is and does. -/
theorem accepted_policies_well_formed_iff (h : derivePolicy chan events = .ok policy) :
    (∀ i ≤ events.length, ∃ p, derivePolicy chan (events.take i) = .ok p ∧ WellFormed p) ↔
      AdoptsWellFormed events := by
  constructor
  · intro hall e he adopted hadopt
    obtain ⟨i, hi, rfl⟩ := List.getElem_of_mem he
    obtain ⟨p, p', -, hp', happly⟩ := exists_policy_at h hi
    rw [hadopt] at happly
    obtain ⟨p'', hp'', hwell⟩ := hall (i + 1) hi
    rw [hp'] at hp''
    cases hp''
    exact eq_of_adopt happly ▸ hwell
  · intro hadopts i _
    obtain ⟨p, hp⟩ := exists_derivePolicy_of_prefix (List.take_prefix i events) h
    exact ⟨p, hp, wellFormed_of_derivePolicy hp fun e he => hadopts e (List.mem_of_mem_take he)⟩

end Histories

/-! ## A policy that nobody checked -/

section Unchecked

open Simulated

attribute [local instance] simulated

/-- A restricted policy of another version, with a reader who is no key. -/
def uncheckedPolicy : ChannelPolicy :=
  { ChannelPolicy.default with
    version := 2, mode := .restricted, owner := some (identity 1).publicKey, readers := ["nobody"] }

/-- Its owner adopts it. -/
def uncheckedHistory : List PolicyEvent := policyChain general none [(1, .adopt uncheckedPolicy)]

theorem checkPolicyCache_uncheckedPolicy :
    checkPolicyCache uncheckedPolicy ≠ .ok uncheckedPolicy := by
  rw [ne_eq, checkPolicyCache_ok]
  exact fun h => absurd h.version (by decide)

/-- **An adoption is not checked**: the history is accepted, and the policy
it leads to is one that the cache reader refuses. -/
theorem unchecked_adoption_accepted :
    ∃ policy, derivePolicy general uncheckedHistory = .ok policy ∧
      (∀ dir : Dir, dir.policyJson = .value policy → readPolicyCache dir ≠ .ok policy) ∧
      ¬ WellFormed policy := by
  refine ⟨uncheckedPolicy, derivePolicy_policyChain general _ (by decide +kernel), ?_, ?_⟩
  · intro dir hfile
    rw [readPolicyCache, hfile]
    exact checkPolicyCache_uncheckedPolicy
  · exact fun h => checkPolicyCache_uncheckedPolicy h.checked

/-- The law for a history that appoints, and adopts nothing. -/
theorem accepted_policies_well_formed_appointing :
    WellFormed (ownedPolicy [(identity 2).publicKey]) := by
  have hlaw := accepted_policies_well_formed_iff
    (derivePolicy_policyChain general (appointAndRevoke.take 2)
      (p := ownedPolicy [(identity 2).publicKey]) (by decide +kernel))
  have hadopts : AdoptsWellFormed (policyChain general none (appointAndRevoke.take 2)) := by
    intro e he adopted hadopt
    simp only [appointAndRevoke, policyChain, List.take_succ_cons, List.take_zero, List.mem_cons,
      List.not_mem_nil, or_false] at he
    rcases he with rfl | rfl <;> cases hadopt
  obtain ⟨p, hp, hwell⟩ := hlaw.2 hadopts 2 le_rfl
  rw [List.take_of_length_le (by rfl), derivePolicy_policyChain general (appointAndRevoke.take 2)
    (p := ownedPolicy [(identity 2).publicKey]) (by decide +kernel)] at hp
  cases hp
  exact hwell

end Unchecked

end Embernet
