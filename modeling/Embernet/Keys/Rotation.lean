import Embernet.Policy.WellFormed
import Embernet.Store.Ownership
/-!
# Rotation — a key that is made before the change it is for

A revocation, a transfer and a change of visibility check the policy in
force, make a new channel key, and then append their event. The append
asks more than the check: the log must be there, a legacy policy is
adopted by its owner only, and the signature of the event must verify.
Where it is refused the change has failed, and the new key stays.
-/

set_option autoImplicit false

namespace Embernet

open Primitives

/-! ## Three changes -/

/-- A change of who belongs to a channel. -/
inductive MembershipChange
  | revokeRole (role : PolicyRole) (publicKey : String)
  | transferOwnership (newOwner : String)
  | setChannelVisibility (visibility : ChannelVisibility)

namespace MembershipChange

/-- The event it appends. -/
def action : MembershipChange → PolicyAction
  | .revokeRole role publicKey => .revoke role publicKey
  | .transferOwnership newOwner => .transferOwner newOwner
  | .setChannelVisibility visibility => .setVisibility visibility

/-- What it checks first of the policy in force. -/
def Allowed (policy : ChannelPolicy) (actor : String) : MembershipChange → Prop
  | .revokeRole role publicKey =>
    validatePublicKey publicKey = .ok () ∧ authorizePolicyChange policy actor role = .ok ()
  | .transferOwnership newOwner =>
    validatePublicKey newOwner = .ok () ∧ policy.owner = some actor
  | .setChannelVisibility _ => policy.mode = .restricted ∧ policy.owner = some actor

/-- Whether it makes a new key. -/
def Rotates (policy : ChannelPolicy) : MembershipChange → Prop
  | .revokeRole .. | .transferOwnership _ => policy.visibility = .private_
  | .setChannelVisibility visibility => visibility = .private_

instance (policy : ChannelPolicy) : (change : MembershipChange) → Decidable (change.Rotates policy)
  | .revokeRole .. | .transferOwnership _ =>
    inferInstanceAs (Decidable (policy.visibility = .private_))
  | .setChannelVisibility visibility => inferInstanceAs (Decidable (visibility = .private_))

variable {change : MembershipChange} {policy : ChannelPolicy} {actor : String}

theorem Allowed.ne_default (h : change.Allowed policy actor) :
    policy ≠ .default := by
  rintro rfl
  cases change with
  | revokeRole role publicKey => cases (authorizePolicyChange_ok.1 h.2).1
  | transferOwnership newOwner => cases h.2
  | setChannelVisibility visibility => cases h.1

/-- What the checks allow, the policy allows. -/
theorem Allowed.applies (h : change.Allowed policy actor) :
    ∃ after, applyPolicyAction policy actor change.action = .ok after := by
  cases change with
  | revokeRole role publicKey =>
    simp only [action, applyPolicyAction, bind_eq_ok, pure_eq_ok]
    exact ⟨_, (), h.2, rfl⟩
  | transferOwnership newOwner =>
    simp only [action, applyPolicyAction, bind_eq_ok, bailIf_eq_ok, not_not, pure_eq_ok]
    exact ⟨_, (), h.1, (), h.2, rfl⟩
  | setChannelVisibility visibility =>
    simp only [action, applyPolicyAction, bind_eq_ok, bailIf_eq_ok, not_not, pure_eq_ok]
    exact ⟨_, (), h.1, (), h.2, rfl⟩

/-- The operation. -/
def run [Primitives] (chan : ChannelRef) (signer : KeypairFile) (raw : Bytes) (now now' : Int64) :
    MembershipChange → StoreM ChannelPolicy
  | .revokeRole role publicKey => Embernet.revokeRole chan signer role publicKey raw now now'
  | .transferOwnership newOwner => Embernet.transferOwnership chan signer newOwner raw now now'
  | .setChannelVisibility visibility =>
    Embernet.setChannelVisibility chan signer visibility raw now now'

end MembershipChange

section Rotation

variable [Primitives] {change : MembershipChange} {chan : ChannelRef} {signer : KeypairFile}
  {raw : Bytes} {now now' : Int64} {d d' : Datadir} {dir : Dir} {policy after : ChannelPolicy}
  {P : List PolicyEvent} {keys : List ChannelKey} {action : PolicyAction} {e : PolicyEvent}

/-- From its checks on: the key, where one is made, and the event. -/
def rotateThenAppend (change : MembershipChange) (policy : ChannelPolicy) (chan : ChannelRef)
    (signer : KeypairFile) (raw : Bytes) (now now' : Int64) : StoreM ChannelPolicy := do
  if change.Rotates policy then
    let _ ← generateChannelKey chan.fullName raw
  appendPolicyAction chan signer now now' change.action

theorem checkRevoke_ok {role : PolicyRole} {publicKey : String} :
    checkRevoke chan signer role publicKey d = .ok policy ↔
      readChannelPolicy chan d = .ok policy ∧
        (MembershipChange.revokeRole role publicKey).Allowed policy signer.publicKey := by
  simp only [checkRevoke, Query.bind_ok, Query.monadLift_apply, Query.pure_apply, Except.ok.injEq,
    MembershipChange.Allowed]
  constructor
  · rintro ⟨_, hkey, _, hpolicy, _, hauth, rfl⟩
    exact ⟨hpolicy, hkey, hauth⟩
  · rintro ⟨hpolicy, hkey, hauth⟩
    exact ⟨(), hkey, policy, hpolicy, (), hauth, rfl⟩

/-- **A change fails at its checks**, and then writes nothing, or goes on
from them. -/
theorem MembershipChange.exec_run (change : MembershipChange) (chan : ChannelRef)
    (signer : KeypairFile) (raw : Bytes) (now now' : Int64) (d : Datadir) :
    ((∃ e, (change.run chan signer raw now now').exec d = (.error e, d)) ∧
        ¬ ∃ policy, readChannelPolicy chan d = .ok policy ∧
          change.Allowed policy signer.publicKey) ∨
      ∃ policy, readChannelPolicy chan d = .ok policy ∧ change.Allowed policy signer.publicKey ∧
        (change.run chan signer raw now now').exec d =
          (rotateThenAppend change policy chan signer raw now now').exec d := by
  cases change with
  | revokeRole role publicKey =>
    rw [run, Embernet.revokeRole, Op.exec_query_bind]
    cases hcheck : checkRevoke chan signer role publicKey d with
    | error e =>
      refine .inl ⟨⟨e, rfl⟩, ?_⟩
      rintro ⟨policy, h⟩
      cases hcheck.symm.trans (checkRevoke_ok.2 h)
    | ok policy =>
      obtain ⟨hpolicy, hallowed⟩ := checkRevoke_ok.1 hcheck
      exact .inr ⟨policy, hpolicy, hallowed, rfl⟩
  | transferOwnership newOwner =>
    rw [run, Embernet.transferOwnership, Op.exec_except_bind]
    cases hkey : validatePublicKey newOwner with
    | error e =>
      refine .inl ⟨⟨e, rfl⟩, ?_⟩
      rintro ⟨_, -, h, -⟩
      cases hkey.symm.trans h
    | ok u =>
      simp only
      rw [Op.exec_query_bind]
      cases hpolicy : readChannelPolicy chan d with
      | error e =>
        refine .inl ⟨⟨e, rfl⟩, ?_⟩
        rintro ⟨_, ⟨⟩, -⟩
      | ok policy =>
        simp only
        rw [Op.exec_bailIf_bind]
        by_cases howner : policy.owner = some signer.publicKey
        · rw [if_neg (not_not.2 howner)]
          exact .inr ⟨policy, rfl, ⟨hkey, howner⟩, rfl⟩
        · rw [if_pos howner]
          refine .inl ⟨⟨_, rfl⟩, ?_⟩
          rintro ⟨_, ⟨⟩, -, h⟩
          exact howner h
  | setChannelVisibility visibility =>
    rw [run, Embernet.setChannelVisibility, Op.exec_query_bind]
    cases hpolicy : readChannelPolicy chan d with
    | error e =>
      refine .inl ⟨⟨e, rfl⟩, ?_⟩
      rintro ⟨_, ⟨⟩, -⟩
    | ok policy =>
      simp only
      rw [Op.exec_bailIf_bind]
      by_cases hmode : policy.mode = .restricted
      swap
      · rw [if_pos hmode]
        refine .inl ⟨⟨_, rfl⟩, ?_⟩
        rintro ⟨_, ⟨⟩, h, -⟩
        exact hmode h
      rw [if_neg (not_not.2 hmode), Op.exec_bailIf_bind]
      by_cases howner : policy.owner = some signer.publicKey
      · rw [if_neg (not_not.2 howner)]
        exact .inr ⟨policy, rfl, ⟨hmode, howner⟩, rfl⟩
      · rw [if_pos howner]
        refine .inl ⟨⟨_, rfl⟩, ?_⟩
        rintro ⟨_, ⟨⟩, -, h⟩
        exact howner h

/-! ## The append -/

/-- An append of an action that is refused writes nothing. -/
theorem appendPolicyAction_failsOr : Op.FailsOr (appendPolicyAction chan signer now now' action) d
    fun result => ∃ after, result.1 = .ok after := by
  rw [appendPolicyAction_eq]
  refine .query fun opened hopen => .except fun current _ => .except fun cached _ =>
    .except fun added _ => .except fun policy _ => .ends ⟨policy, ?_⟩
  rw [Op.exec_bind_of_ok (exec_modifyDir (openLog_ok.1 hopen).1)]
  rfl

/-- The key file signs the event, and its public key verifies it. -/
def SignsEvent (chan : ChannelRef) (signer : KeypairFile) (now : Int64) (previous : Option String)
    (action : PolicyAction) (e : PolicyEvent) : Prop :=
  signPolicyEvent chan signer now previous action = .ok e ∧
    verifyBytes e.actor e.sig e.signed = .ok ()

/-- And so for all that an append adds: the event, behind the adoption of
the policy where there is no history. -/
def SignsAll (chan : ChannelRef) (signer : KeypairFile) (now now' : Int64) (P : List PolicyEvent)
    (policy : ChannelPolicy) (action : PolicyAction) : Prop :=
  if P = [] then
    ∃ adoption e, SignsEvent chan signer now none (.adopt policy) adoption ∧
      SignsEvent chan signer now' (some adoption.id) action e
  else ∃ e, SignsEvent chan signer now (P.getLast?.map PolicyEvent.id) action e

/-- **One signed event behind a history**: it is accepted exactly if its
signature verifies and the policy allows it. -/
theorem derivePolicy_signed_iff (hP : derivePolicy chan P = .ok policy)
    (he : signPolicyEvent chan signer now (P.getLast?.map PolicyEvent.id) action = .ok e) :
    derivePolicy chan (P ++ [e]) = .ok after ↔
      verifyBytes e.actor e.sig e.signed = .ok () ∧
        applyPolicyAction policy signer.publicKey action = .ok after := by
  obtain ⟨s, hs, rfl⟩ := derivePolicy_ok.1 hP
  have hprevious := previous_replayPolicy hs
  simp only [signPolicyEvent, bind_eq_ok, pure_eq_ok] at he
  obtain ⟨sig, -, rfl⟩ := he
  constructor
  · intro h
    obtain ⟨t, ht, rfl⟩ := derivePolicy_ok.1 h
    obtain ⟨s', hs', hstep⟩ := Replay.replay_concat_ok.1 ht
    obtain rfl : s = s' := Except.ok.inj (hs.symm.trans hs')
    obtain ⟨-, -, -, hverify, happly, -⟩ := derivePolicyStep_ok.1 hstep
    exact ⟨hverify, happly⟩
  · rintro ⟨hverify, happly⟩
    exact derivePolicy_ok.2 ⟨⟨after, _⟩, Replay.replay_concat_ok.2 ⟨s, hs,
      derivePolicyStep_ok.2 ⟨rfl, hprevious.symm, rfl, hverify, happly, rfl⟩⟩, rfl⟩

/-- **What it takes for an action that the policy allows to be appended**:
signatures that verify, and, where there is no history, that the signer
owns the policy it would adopt. -/
theorem added_iff
    (hcurrent : (if P.isEmpty then readPolicyCache dir else derivePolicy chan P) = .ok policy)
    (hmode : P = [] → policy.mode = .restricted)
    (happly : applyPolicyAction policy signer.publicKey action = .ok after) :
    (∃ added final, newPolicyEvents chan signer now now' action P policy = .ok added ∧
        derivePolicy chan (P ++ added) = .ok final) ↔
      (P = [] → policy.owner = some signer.publicKey) ∧
        SignsAll chan signer now now' P policy action := by
  cases P with
  | cons first rest =>
    have hP : derivePolicy chan (first :: rest) = .ok policy := hcurrent
    rw [newPolicyEvents, if_neg (by simp), SignsAll, if_neg (List.cons_ne_nil _ _)]
    simp only [bind_eq_ok, pure_eq_ok]
    constructor
    · rintro ⟨_, final, ⟨e, he, rfl⟩, hfinal⟩
      exact ⟨nofun, e, he, ((derivePolicy_signed_iff hP he).1 hfinal).1⟩
    · rintro ⟨-, e, he, hverify⟩
      exact ⟨[e], after, ⟨e, he, rfl⟩, (derivePolicy_signed_iff hP he).2 ⟨hverify, happly⟩⟩
  | nil =>
    rw [newPolicyEvents, if_pos ⟨rfl, hmode rfl⟩, SignsAll, if_pos rfl]
    simp only [bind_eq_ok, bailIf_eq_ok, not_not, pure_eq_ok, forall_const]
    have hadopts : policy.owner = some signer.publicKey →
        applyPolicyAction .default signer.publicKey (.adopt policy) = .ok policy := by
      intro howner
      have hbail : ¬ (ChannelPolicy.default.mode ≠ .open_ ∨ policy.mode ≠ .restricted ∨
          policy.owner ≠ some signer.publicKey) := by
        rintro (h | h | h)
        · exact h rfl
        · exact h (hmode rfl)
        · exact h howner
      simp only [applyPolicyAction, bind_eq_ok, bailIf_eq_ok, pure_eq_ok]
      exact ⟨(), hbail, trivial⟩
    constructor
    · rintro ⟨_, final, ⟨_, howner, adoption, hadoption, e, he, rfl⟩, hfinal⟩
      obtain ⟨before, hbefore⟩ :=
        exists_derivePolicy_of_prefix (List.prefix_append [adoption] [e]) hfinal
      have hverify := ((derivePolicy_signed_iff derivePolicy_nil hadoption).1 hbefore).1
      have hverify' := ((derivePolicy_signed_iff (P := [adoption]) hbefore he).1 hfinal).1
      exact ⟨howner, adoption, e, ⟨hadoption, hverify⟩, he, hverify'⟩
    · rintro ⟨howner, adoption, e, ⟨hadoption, hverify⟩, he, hverify'⟩
      have hadopted :=
        (derivePolicy_signed_iff derivePolicy_nil hadoption).2 ⟨hverify, hadopts howner⟩
      exact ⟨[adoption, e], after, ⟨(), howner, adoption, hadoption, e, he, rfl⟩,
        (derivePolicy_signed_iff (P := [adoption]) hadopted he).2 ⟨hverify', happly⟩⟩

theorem exists_append_iff (hdir : d.channels[chan.fullName]? = some dir)
    (hP : readPolicyLog chan dir = .ok P)
    (hcurrent : (if P.isEmpty then readPolicyCache dir else derivePolicy chan P) = .ok policy)
    (hmode : P = [] → policy.mode = .restricted)
    (happly : applyPolicyAction policy signer.publicKey action = .ok after) :
    (∃ final d', (appendPolicyAction chan signer now now' action).exec d = (.ok final, d')) ↔
      dir.log ≠ none ∧ (P = [] → policy.owner = some signer.publicKey) ∧
        SignsAll chan signer now now' P policy action := by
  rw [← added_iff hcurrent hmode happly]
  constructor
  · rintro ⟨final, d', h⟩
    obtain ⟨dir₁, log, P₁, cached, added, hopen, hP₁, hcached, hadded, hfinal, -⟩ :=
      exec_appendPolicyAction_ok.1 h
    obtain rfl : dir₁ = dir := of_openLog hdir hopen
    obtain rfl := Except.ok.inj (hP.symm.trans hP₁)
    obtain rfl := Except.ok.inj (hcurrent.symm.trans hcached)
    exact ⟨Option.ne_none_iff_exists'.2 ⟨log, (openLog_ok.1 hopen).2⟩, added, final, hadded, hfinal⟩
  · rintro ⟨hlog, added, final, hadded, hfinal⟩
    obtain ⟨log, hlog⟩ := Option.ne_none_iff_exists'.1 hlog
    exact ⟨final, _, exec_appendPolicyAction_ok.2 ⟨dir, log, P, policy, added,
      openLog_ok.2 ⟨hdir, hlog⟩, hP, hcurrent, hadded, hfinal, rfl⟩⟩

/-! ## The policy in force -/

/-- The policy in force has a history behind it, which may be empty. -/
theorem exists_history (hpolicy : readDirPolicy chan dir = .ok policy) (hset : policy ≠ .default) :
    ∃ P, readPolicyLog chan dir = .ok P ∧
      (if P.isEmpty then readPolicyCache dir else derivePolicy chan P) = .ok policy := by
  suffices ∃ P, readPolicyLog chan dir = .ok P by
    obtain ⟨P, hP⟩ := this
    exact ⟨P, hP, readPolicy_current hP hpolicy hset⟩
  cases hlog : dir.policyLog with
  | none => exact ⟨[], by rw [readPolicyLog, hlog]; rfl⟩
  | some bytes =>
    rw [readDirPolicy, hlog, Option.isSome_some, if_pos rfl, bind_eq_ok] at hpolicy
    obtain ⟨P, hP, -⟩ := hpolicy
    exact ⟨P, hP⟩

omit [Primitives] in
/-- A policy file under which a key is made names an owner who can adopt
it. -/
theorem restricted_of_rotates (hcache : readPolicyCache dir = .ok policy)
    (hallowed : change.Allowed policy signer.publicKey) (hrotates : change.Rotates policy) :
    policy.mode = .restricted := by
  cases change with
  | revokeRole role publicKey => exact (authorizePolicyChange_ok.1 hallowed.2).1
  | setChannelVisibility visibility => exact hallowed.1
  | transferOwnership newOwner =>
    rw [readPolicyCache] at hcache
    cases hfile : dir.policyJson with
    | absent =>
      rw [hfile] at hcache
      cases hcache
      cases hrotates
    | malformed =>
      rw [hfile] at hcache
      cases hcache
    | value file =>
      rw [hfile] at hcache
      obtain rfl : file = policy := checkPolicyCache_eq hcache
      exact (checkPolicyCache_ok.1 hcache).restricted hrotates

/-! ## A change that fails -/

/-- The keyring with a new key, which is put last. -/
def rotatedKeys (raw : Bytes) (keys : List ChannelKey) : List ChannelKey :=
  keys.filter (·.id != (ChannelKey.ofRaw raw).id) ++ [.ofRaw raw]

/-- **Where a key is stranded**: the checks pass and the keyring changes,
and then the append is refused, for there is no log, or the signer does not
own the policy it would have to adopt, or its signatures do not verify. -/
structure Stranded (change : MembershipChange) (chan : ChannelRef) (signer : KeypairFile)
    (raw : Bytes) (now now' : Int64) (policy : ChannelPolicy) (P : List PolicyEvent)
    (keys : List ChannelKey) (d : Datadir) : Prop where
  inForce : readChannelPolicy chan d = .ok policy
  history : readPolicyHistory chan d = .ok P
  loaded : loadKeys chan.fullName d = .ok keys
  allowed : change.Allowed policy signer.publicKey
  rotates : change.Rotates policy
  changed : rotatedKeys raw keys ≠ keys
  refused : (∀ opened, openLog chan d ≠ .ok opened) ∨
    (P = [] ∧ policy.owner ≠ some signer.publicKey) ∨
    ¬ SignsAll chan signer now now' P policy change.action

/-- The history, the policy and the keys are read as before. -/
structure Unmoved (chan : ChannelRef) (d d' : Datadir) : Prop where
  history : readPolicyHistory chan d' = readPolicyHistory chan d
  policy : readChannelPolicy chan d' = readChannelPolicy chan d
  keys : loadKeys chan.fullName d' = loadKeys chan.fullName d
  current : currentChannelKey chan.fullName d' = currentChannelKey chan.fullName d

theorem Unmoved.refl : Unmoved chan d d := ⟨rfl, rfl, rfl, rfl⟩

/-- A new keyring leaves the policy. -/
theorem unmoved_iff (hdir : d.channels[chan.fullName]? = some dir)
    (hkeys : loadKeys chan.fullName d = .ok keys) (written : List ChannelKey) :
    Unmoved chan d (d.put chan.fullName { dir with channelKeys := .value written }) ↔
      written = keys := by
  have hdir' := getElem?_put_self d chan.fullName { dir with channelKeys := .value written }
  constructor
  · intro h
    have hload := h.keys
    rw [loadKeys_put, hkeys] at hload
    exact Except.ok.inj hload
  · rintro rfl
    have hload : loadKeys chan.fullName
        (d.put chan.fullName { dir with channelKeys := .value written }) =
          loadKeys chan.fullName d := loadKeys_put.trans hkeys.symm
    refine ⟨?_, ?_, hload, ?_⟩
    · rw [readPolicyHistory_of_getElem? hdir', readPolicyHistory_of_getElem? hdir]
      rfl
    · rw [readChannelPolicy_of_getElem? hdir', readChannelPolicy_of_getElem? hdir]
      rfl
    · simp only [currentChannelKey, Query.bind_apply, Query.orBail_apply, hload]

/-- The append of an allowed change is refused where the key is
stranded. -/
theorem append_iff_of_rotates (hdir : d.channels[chan.fullName]? = some dir)
    (hP : readPolicyLog chan dir = .ok P)
    (hcurrent : (if P.isEmpty then readPolicyCache dir else derivePolicy chan P) = .ok policy)
    (hallowed : change.Allowed policy signer.publicKey) (hrotates : change.Rotates policy) :
    (∃ final d', (appendPolicyAction chan signer now now' change.action).exec d =
        (.ok final, d')) ↔
      dir.log ≠ none ∧ (P = [] → policy.owner = some signer.publicKey) ∧
        SignsAll chan signer now now' P policy change.action := by
  obtain ⟨after, happly⟩ := hallowed.applies
  refine exists_append_iff hdir hP hcurrent ?_ happly
  rintro rfl
  exact restricted_of_rotates hcurrent hallowed hrotates

/-- What the refusals are, in the channel's directory. -/
theorem refused_iff (hdir : d.channels[chan.fullName]? = some dir) :
    ((∀ opened, openLog chan d ≠ .ok opened) ∨ (P = [] ∧ policy.owner ≠ some signer.publicKey) ∨
        ¬ SignsAll chan signer now now' P policy action) ↔
      ¬ (dir.log ≠ none ∧ (P = [] → policy.owner = some signer.publicKey) ∧
        SignsAll chan signer now now' P policy action) := by
  have hopen : (∀ opened, openLog chan d ≠ .ok opened) ↔ dir.log = none := by
    constructor
    · intro h
      cases hlog : dir.log with
      | none => rfl
      | some log => exact absurd (openLog_ok.2 ⟨hdir, hlog⟩) (h (dir, log))
    · rintro hnone ⟨dir', log⟩ hopened
      obtain ⟨hdir', hlog⟩ := openLog_ok.1 hopened
      cases hdir.symm.trans hdir'
      rw [hnone] at hlog
      cases hlog
  rw [hopen]
  tauto

/-- **A change that makes a key**: the key is made, and stays where the
append is refused. -/
theorem failed_rotation_iff (hpolicy : readChannelPolicy chan d = .ok policy)
    (hallowed : change.Allowed policy signer.publicKey) (hrotates : change.Rotates policy) :
    (∀ e d', (generateChannelKey chan.fullName raw >>= fun _ =>
          appendPolicyAction chan signer now now' change.action).exec d = (.error e, d') →
        Unmoved chan d d') ↔
      ¬ ∃ policy P keys, Stranded change chan signer raw now now' policy P keys d := by
  have hset := hallowed.ne_default
  obtain ⟨dir, hdir⟩ : ∃ dir, d.channels[chan.fullName]? = some dir := by
    cases hnone : d.channels[chan.fullName]? with
    | some dir => exact ⟨dir, rfl⟩
    | none =>
      rw [readChannelPolicy, hnone] at hpolicy
      exact absurd (Except.ok.inj hpolicy).symm hset
  have hinDir := hpolicy
  rw [readChannelPolicy_of_getElem? hdir] at hinDir
  obtain ⟨P, hP, hcurrent⟩ := exists_history hinDir hset
  cases hload : loadKeys chan.fullName d with
  | error e =>
    -- without a keyring to read no key is made
    have hgenerate : (generateChannelKey chan.fullName raw).exec d = (.error e, d) := by
      rw [generateChannelKey, Op.exec_query_bind, openDir_ok.2 hdir]
      simp only
      rw [Op.exec_query_bind, hload]
    refine iff_of_true ?_ ?_
    · intro e' d' h
      cases (Op.exec_bind_of_error hgenerate).symm.trans h
      exact .refl
    · rintro ⟨policy', P', keys, hstranded⟩
      cases hload.symm.trans hstranded.loaded
  | ok keys =>
    rw [Op.exec_bind_of_ok (exec_generateChannelKey hdir hload)]
    have hmoved := unmoved_iff hdir hload (rotatedKeys raw keys)
    have hdir₁ := getElem?_put_self d chan.fullName
      { dir with channelKeys := .value (rotatedKeys raw keys) }
    have happend : (∃ final d', (appendPolicyAction chan signer now now' change.action).exec
          (d.put chan.fullName { dir with channelKeys := .value (rotatedKeys raw keys) }) =
            (.ok final, d')) ↔ _ :=
      append_iff_of_rotates hdir₁ hP hcurrent hallowed hrotates
    have hstranded : (∃ policy P keys, Stranded change chan signer raw now now' policy P keys d) ↔
        rotatedKeys raw keys ≠ keys ∧
          ¬ (dir.log ≠ none ∧ (P = [] → policy.owner = some signer.publicKey) ∧
            SignsAll chan signer now now' P policy change.action) := by
      have hhistory : readPolicyHistory chan d = .ok P :=
        readPolicyHistory_ok.2 ⟨dir, hdir, hP⟩
      rw [← refused_iff hdir]
      constructor
      · rintro ⟨policy', P', keys', h⟩
        cases hpolicy.symm.trans h.inForce
        cases hhistory.symm.trans h.history
        cases hload.symm.trans h.loaded
        exact ⟨h.changed, h.refused⟩
      · rintro ⟨hchanged, hrefused⟩
        exact ⟨policy, P, keys, hpolicy, hhistory, hload, hallowed, hrotates, hchanged, hrefused⟩
    rw [hstranded]
    by_cases hgoes : dir.log ≠ none ∧ (P = [] → policy.owner = some signer.publicKey) ∧
        SignsAll chan signer now now' P policy change.action
    · obtain ⟨final, d', hexec⟩ := happend.2 hgoes
      refine iff_of_true ?_ fun h => h.2 hgoes
      intro e d' h
      cases hexec.symm.trans h
    · rcases appendPolicyAction_failsOr with ⟨e, hexec⟩ | ⟨final, hexec⟩
      · -- the key is what the failure leaves
        constructor
        · rintro h ⟨hchanged, -⟩
          exact hchanged (hmoved.1 (h e _ hexec))
        · intro h e' d' hfails
          cases hexec.symm.trans hfails
          exact hmoved.2 (not_not.1 fun hchanged => h ⟨hchanged, hgoes⟩)
      · exact absurd (happend.1 ⟨final, _, Prod.ext hexec rfl⟩) hgoes

/-- **A failed change leaves the channel as it was exactly if it strands no
key.** -/
theorem failed_change_iff (change : MembershipChange) (chan : ChannelRef) (signer : KeypairFile)
    (raw : Bytes) (now now' : Int64) (d : Datadir) :
    (∀ e d', (change.run chan signer raw now now').exec d = (.error e, d') → Unmoved chan d d') ↔
      ¬ ∃ policy P keys, Stranded change chan signer raw now now' policy P keys d := by
  rcases change.exec_run chan signer raw now now' d with
    ⟨⟨e, hfails⟩, hrefused⟩ | ⟨policy, hpolicy, hallowed, hrun⟩
  · -- at its checks
    refine iff_of_true ?_ ?_
    · intro e' d' h
      cases hfails.symm.trans h
      exact .refl
    · rintro ⟨policy, P, keys, h⟩
      exact hrefused ⟨policy, h.inForce, h.allowed⟩
  rw [hrun, rotateThenAppend]
  by_cases hrotates : change.Rotates policy
  swap
  · -- no key is made
    rw [if_neg hrotates]
    refine iff_of_true ?_ ?_
    · intro e d' h
      have hends : Op.FailsOr (appendPolicyAction chan signer now now' change.action) d
          fun result => ∃ after, result.1 = .ok after := appendPolicyAction_failsOr
      rcases hends with ⟨e', hexec⟩ | ⟨after, hexec⟩
      · cases hexec.symm.trans h
        exact .refl
      · rw [h] at hexec
        cases hexec
    · rintro ⟨policy', P, keys, hstranded⟩
      cases hpolicy.symm.trans hstranded.inForce
      exact hrotates hstranded.rotates
  rw [if_pos hrotates]
  exact failed_rotation_iff hpolicy hallowed hrotates

end Rotation

/-! ## A moderator of a legacy channel -/

section UnadoptedChannel

open Simulated

attribute [local instance] simulated

/-- A private policy that has no signed history: an owner, a moderator and
a writer. -/
def unadoptedPolicy : ChannelPolicy :=
  { ChannelPolicy.default with
    mode := .restricted
    visibility := .private_
    owner := some (identity 1).publicKey
    moderators := [(identity 2).publicKey]
    writers := [(identity 3).publicKey] }

/-- A channel whose policy was never adopted. -/
noncomputable def unadoptedDir : Dir :=
  { log := some [], policyJson := .value unadoptedPolicy
    channelKeys := .value [.ofRaw (drawn 1)] }

/-- The channel under it, with one key. -/
noncomputable def unadoptedChannel : Datadir := ({} : Datadir).put general.fullName unadoptedDir

/-- Its directory once the new key is made. -/
noncomputable def rotatedDir : Dir :=
  { unadoptedDir with channelKeys := .value (rotatedKeys (drawn 2) [.ofRaw (drawn 1)]) }

theorem getElem?_unadoptedChannel :
    unadoptedChannel.channels[general.fullName]? = some unadoptedDir := getElem?_put_self _ _ _

theorem readPolicyCache_unadoptedDir : readPolicyCache unadoptedDir = .ok unadoptedPolicy := by
  change checkPolicyCache unadoptedPolicy = .ok unadoptedPolicy
  refine checkPolicyCache_ok.2 ⟨rfl, nofun, ?_, fun _ => rfl⟩
  rintro key (howner | ⟨role, hmem⟩)
  · cases howner
    exact validatePublicKey_identity 1
  · cases role with
    | moderator =>
      obtain rfl := List.mem_singleton.1 hmem
      exact validatePublicKey_identity 2
    | writer =>
      obtain rfl := List.mem_singleton.1 hmem
      exact validatePublicKey_identity 3
    | reader => cases hmem

theorem readChannelPolicy_unadoptedChannel :
    readChannelPolicy general unadoptedChannel = .ok unadoptedPolicy := by
  rw [readChannelPolicy_of_getElem? getElem?_unadoptedChannel]
  exact readPolicyCache_unadoptedDir

/-- **A refused revocation leaves its key.** The moderator revokes the
writer: the checks allow it, the key is made, and the append is refused,
for the owner has not adopted the policy. -/
theorem revocation_strands_key : ∃ e d',
    ((MembershipChange.revokeRole .writer (identity 3).publicKey).run general (identity 2)
        (drawn 2) 1 2).exec unadoptedChannel = (.error e, d') ∧
      currentChannelKey general.fullName unadoptedChannel = .ok (.ofRaw (drawn 1)) ∧
      currentChannelKey general.fullName d' = .ok (.ofRaw (drawn 2)) ∧
      ¬ Unmoved general unadoptedChannel d' := by
  have hallowed : (MembershipChange.revokeRole .writer (identity 3).publicKey).Allowed
      unadoptedPolicy (identity 2).publicKey :=
    ⟨validatePublicKey_identity 3,
      authorizePolicyChange_ok.2 ⟨rfl, .inr ⟨List.mem_singleton_self _, nofun⟩⟩⟩
  rcases (MembershipChange.revokeRole .writer (identity 3).publicKey).exec_run general (identity 2)
    (drawn 2) 1 2 unadoptedChannel with ⟨-, hrefused⟩ | ⟨policy, hpolicy, -, hrun⟩
  · exact absurd ⟨_, readChannelPolicy_unadoptedChannel, hallowed⟩ hrefused
  cases readChannelPolicy_unadoptedChannel.symm.trans hpolicy
  have hload : loadKeys general.fullName unadoptedChannel = .ok [.ofRaw (drawn 1)] := by
    rw [loadKeys, getElem?_unadoptedChannel]
    rfl
  have hkeys : loadKeys general.fullName (unadoptedChannel.put general.fullName rotatedDir) =
      .ok (rotatedKeys (drawn 2) [.ofRaw (drawn 1)]) := by
    rw [loadKeys, getElem?_put_self]
    rfl
  have hrotates : (MembershipChange.revokeRole .writer (identity 3).publicKey).Rotates
      unadoptedPolicy := rfl
  rw [rotateThenAppend, if_pos hrotates,
    Op.exec_bind_of_ok (exec_generateChannelKey getElem?_unadoptedChannel hload)] at hrun
  have hhistory : readPolicyLog general rotatedDir = .ok [] := by
    simp only [readPolicyLog, rotatedDir, unadoptedDir]
    rfl
  have hrefused : (∃ final d', (appendPolicyAction general (identity 2) 1 2
      (.revoke .writer (identity 3).publicKey)).exec
        (unadoptedChannel.put general.fullName rotatedDir) = (.ok final, d')) → _ :=
    (append_iff_of_rotates (getElem?_put_self unadoptedChannel general.fullName rotatedDir)
      hhistory readPolicyCache_unadoptedDir hallowed hrotates).1
  have hother : unadoptedPolicy.owner ≠ some (identity 2).publicKey := by
    intro h
    have := hexEncode_injective (Option.some.inj h)
    exact absurd this (by decide)
  rcases appendPolicyAction_failsOr with ⟨e, hexec⟩ | ⟨final, hexec⟩
  · have hbefore : currentChannelKey general.fullName unadoptedChannel = .ok (.ofRaw (drawn 1)) :=
      (currentChannelKey_ok hload).2 rfl
    have hafter : currentChannelKey general.fullName
        (unadoptedChannel.put general.fullName rotatedDir) = .ok (.ofRaw (drawn 2)) :=
      (currentChannelKey_ok hkeys).2 (List.getLast?_concat ..)
    refine ⟨e, _, hrun.trans hexec, hbefore, hafter, fun hunmoved => ?_⟩
    have hsame := hafter.symm.trans (hunmoved.current.trans hbefore)
    exact drawnKeys_ne (Except.ok.inj hsame).symm
  · exact absurd ((hrefused ⟨final, _, Prod.ext hexec rfl⟩).2.1 rfl) hother

end UnadoptedChannel

end Embernet
