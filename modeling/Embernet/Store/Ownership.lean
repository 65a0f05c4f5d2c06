import Embernet.Keys.Agreement
import Embernet.Policy.Revocation
import Embernet.Store.Readable
/-!
# Ownership — what a transfer writes

A transfer of a private channel makes a new key and then appends the event
that names the new owner. Whoever owned the channel and had no other role
is then outside of it, with the new key in its keyring. That the event
reads back behind the history rests on the history file's last line being
closed, as the operations leave it.
-/

set_option autoImplicit false

namespace Embernet

section Policies

variable {policy after : ChannelPolicy} {key actor newOwner : String}

/-- A policy that does not let a key read is private. -/
theorem private_of_not_reads (h : policyAllowsRead policy key = false) :
    policy.visibility = .private_ := by
  cases hvisible : policy.visibility with
  | private_ => rfl
  | public_ =>
    have hreads := policyAllowsRead_iff.2 (.inl hvisible : _ ∨ policy.owner = some key ∨ _)
    rw [h] at hreads
    cases hreads

/-- **A transfer shuts out** an owner who has no other role. -/
theorem not_reads_of_transfer
    (h : applyPolicyAction policy actor (.transferOwner newOwner) = .ok after)
    (hprivate : policy.visibility = .private_) (hnone : ∀ role, ¬ HasRole policy role key)
    (hother : newOwner ≠ key) : policyAllowsRead after key = false := by
  simp only [applyPolicyAction, bind_eq_ok, pure_eq_ok] at h
  obtain ⟨_, -, _, -, rfl⟩ := h
  rw [← Bool.not_eq_true, policyAllowsRead_iff]
  rintro (hpublic | howner | ⟨role, hrole⟩)
  · rw [hprivate] at hpublic
    cases hpublic
  · exact hother (Option.some.inj howner)
  · refine hnone role ?_
    cases role <;> exact (List.mem_filter.1 hrole).1

end Policies

section Transfer

variable [Primitives] {chan : ChannelRef} {d d' d₀ : Datadir} {dir : Dir}
  {signer : KeypairFile} {newOwner : String} {raw : Bytes} {now now' : Int64}
  {action : PolicyAction} {P Q : List PolicyEvent} {policy after : ChannelPolicy}
  {key : String}

/-! ## The policy file -/

/-- The last line of the channel's policy file is closed. -/
def PolicyClosed (chan : ChannelRef) (d : Datadir) : Prop :=
  ∀ dir, d.channels[chan.fullName]? = some dir → Ndjson.Terminated (dir.policyLog.getD [])

/-- **Every store is so** that operations have made from an empty
channel. -/
theorem policyClosed_run {ops : List StoreOp} (hrun : Run (StoreStep chan) d₀ ops d)
    (h₀ : EmptyHistories chan d₀) : PolicyClosed chan d := by
  suffices ∃ files, HasHistories chan files d ∧ Ndjson.Terminated (files.policyLog.getD []) by
    obtain ⟨files, ⟨dir, hdir, rfl⟩, hclosed⟩ := this
    intro dir' hdir'
    cases hdir.symm.trans hdir'
    exact hclosed
  have happend {files : HistoryFiles} {events : List PolicyEvent} {written : ChannelPolicy}
      (hclosed : Ndjson.Terminated (files.policyLog.getD [])) :
      Ndjson.Terminated
        ((appendPolicyRecords events written files.dir).histories.policyLog.getD []) := by
    cases events with
    | nil => exact hclosed
    | cons e events => exact Ndjson.terminated_append hclosed (policyCodec.terminated_records _)
  refine hrun.invariant (I := fun d => ∃ files, HasHistories chan files d ∧
    Ndjson.Terminated (files.policyLog.getD [])) ?_ ?_
  · rintro d op d' ⟨files, ⟨dir, hdir, rfl⟩, hclosed⟩ rfl
    obtain ⟨files', hchange, hfiles'⟩ := history_change op hdir
    refine ⟨files', hfiles', ?_⟩
    cases hchange with
    | policyAction => exact happend hclosed
    | policyRemote => exact happend hclosed
    | policyResolved => exact policyCodec.terminated_records _
    | _ => exact hclosed
  · obtain ⟨policyJson, hfiles⟩ := h₀
    exact ⟨_, hfiles, Ndjson.terminated_nil⟩

theorem readPolicyHistory_ok : readPolicyHistory chan d = .ok P ↔
    ∃ dir, d.channels[chan.fullName]? = some dir ∧ readPolicyLog chan dir = .ok P := by
  simp only [readPolicyHistory, Query.bind_ok, openDir_ok, Query.monadLift_apply]

/-- Where there is a signed history, it is the policy in force. -/
theorem readChannelPolicy_of_history (h : readPolicyHistory chan d = .ok P) (hne : P ≠ []) :
    readChannelPolicy chan d = derivePolicy chan P := by
  obtain ⟨dir, hdir, hlog⟩ := readPolicyHistory_ok.1 h
  have hsome : dir.policyLog.isSome = true := by
    cases hnone : dir.policyLog with
    | some bytes => rfl
    | none =>
      rw [readPolicyLog, hnone] at hlog
      cases hlog
      exact absurd rfl hne
  rw [readChannelPolicy_of_getElem? hdir, readDirPolicy, if_pos hsome, hlog]
  rfl

/-- Records that are appended to a closed file are read back behind what
it held. -/
theorem readPolicyHistory_appended (hclosed : PolicyClosed chan d)
    (hdir : d.channels[chan.fullName]? = some dir) (hP : readPolicyLog chan dir = .ok P)
    (hQ : derivePolicy chan (P ++ Q) = .ok policy) (written : ChannelPolicy) :
    readPolicyHistory chan (d.put chan.fullName (appendPolicyRecords Q written dir)) =
      .ok (P ++ Q) := by
  have hparse := append_records policyCodec (hclosed dir hdir) (readPolicyLog_ok.1 hP).1 Q
  exact readPolicyHistory_ok.2
    ⟨_, getElem?_put_self _ _ _, readPolicyLog_ok.2 ⟨hparse.1, policy, hQ⟩⟩

theorem policyClosed_appended (hclosed : PolicyClosed chan d)
    (hdir : d.channels[chan.fullName]? = some dir) (hP : readPolicyLog chan dir = .ok P)
    (written : ChannelPolicy) :
    PolicyClosed chan (d.put chan.fullName (appendPolicyRecords Q written dir)) := by
  intro dir' hdir'
  rw [getElem?_put_self] at hdir'
  cases hdir'
  exact (append_records policyCodec (hclosed dir hdir) (readPolicyLog_ok.1 hP).1 Q).2

/-! ## What a transfer writes -/

/-- The action as one sequence. -/
theorem appendPolicyAction_eq : appendPolicyAction chan signer now now' action = (do
    let opened ← (liftM (openLog chan) : StoreM _)
    let current ← (liftM (readPolicyLog chan opened.1) : StoreM _)
    let cached ← (liftM (if current.isEmpty then readPolicyCache opened.1
      else derivePolicy chan current) : StoreM _)
    let added ← (liftM (newPolicyEvents chan signer now now' action current cached) : StoreM _)
    let policy ← (liftM (derivePolicy chan (current ++ added)) : StoreM _)
    modifyDir chan.fullName (appendPolicyRecords added policy)
    pure policy) := by
  rw [appendPolicyAction]
  refine congrArg _ (funext fun opened => ?_)
  refine congrArg (liftM (readPolicyLog chan opened.1) >>= ·) (funext fun current => ?_)
  by_cases hempty : current.isEmpty = true
  · rw [if_pos hempty, if_pos hempty]
  · rw [if_neg hempty, if_neg hempty]

/-- **A policy action that is done** was signed and appended under the
policy in the files. -/
theorem exec_appendPolicyAction_ok :
    (appendPolicyAction chan signer now now' action).exec d = (.ok after, d') ↔
      ∃ dir log current cached added, openLog chan d = .ok (dir, log) ∧
        readPolicyLog chan dir = .ok current ∧
        (if current.isEmpty then readPolicyCache dir else derivePolicy chan current) =
          .ok cached ∧
        newPolicyEvents chan signer now now' action current cached = .ok added ∧
        derivePolicy chan (current ++ added) = .ok after ∧
        d' = d.put chan.fullName (appendPolicyRecords added after dir) := by
  have hwrite {dir : Dir} {log : Bytes} (hopen : openLog chan d = .ok (dir, log))
      (added : List PolicyEvent) (policy : ChannelPolicy) :
      (modifyDir chan.fullName (appendPolicyRecords added policy)).exec d =
        (.ok (), d.put chan.fullName (appendPolicyRecords added policy dir)) :=
    exec_modifyDir (openLog_ok.1 hopen).1
  simp only [appendPolicyAction_eq, Op.exec_bind_ok, Op.exec_query, Op.exec_except, Op.exec_pure,
    Prod.mk.injEq]
  constructor
  · rintro ⟨⟨dir, log⟩, _, ⟨hopen, rfl⟩, current, _, ⟨hcurrent, rfl⟩, cached, _, ⟨hcached, rfl⟩,
      added, _, ⟨hadded, rfl⟩, policy, _, ⟨hpolicy, rfl⟩, _, t, hmodify, hafter, rfl⟩
    rw [hwrite hopen] at hmodify
    cases hmodify
    cases hafter
    exact ⟨dir, log, current, cached, added, hopen, hcurrent, hcached, hadded, hpolicy, rfl⟩
  · rintro ⟨dir, log, current, cached, added, hopen, hcurrent, hcached, hadded, hpolicy, rfl⟩
    exact ⟨_, d, ⟨hopen, rfl⟩, current, d, ⟨hcurrent, rfl⟩, cached, d, ⟨hcached, rfl⟩,
      added, d, ⟨hadded, rfl⟩, after, d, ⟨hpolicy, rfl⟩, (), _, hwrite hopen added after, rfl, rfl⟩

/-- What a policy other than the default tells of the history behind it: it
is the one that new events continue. -/
theorem readPolicy_current {dir : Dir} (hcurrent : readPolicyLog chan dir = .ok P)
    (hpolicy : readDirPolicy chan dir = .ok policy) (hset : policy ≠ .default) :
    (if P.isEmpty then readPolicyCache dir else derivePolicy chan P) = .ok policy := by
  rw [readDirPolicy, hcurrent] at hpolicy
  cases P with
  | cons e events =>
    have hsome : dir.policyLog.isSome = true := by
      cases hnone : dir.policyLog with
      | some bytes => rfl
      | none =>
        rw [readPolicyLog, hnone] at hcurrent
        cases hcurrent
    rw [if_pos hsome] at hpolicy
    exact hpolicy
  | nil =>
    by_cases hsome : dir.policyLog.isSome = true
    · rw [if_pos hsome] at hpolicy
      cases hpolicy
      exact absurd rfl hset
    · rw [if_neg hsome] at hpolicy
      exact hpolicy

/-- What `sign_policy_event` signs. -/
theorem fields_of_signPolicyEvent {previous : Option String} {e : PolicyEvent}
    (h : signPolicyEvent chan signer now previous action = .ok e) :
    e.actor = signer.publicKey ∧ e.action = action := by
  simp only [signPolicyEvent, bind_eq_ok, pure_eq_ok] at h
  obtain ⟨sig, -, rfl⟩ := h
  exact ⟨rfl, rfl⟩

/-- **The policy after a transfer** is the one in force with the transfer
applied, also where the history begins with the adoption of that policy. -/
theorem applied_of_transfer {dir : Dir} {added : List PolicyEvent}
    (hcached : (if P.isEmpty then readPolicyCache dir else derivePolicy chan P) = .ok policy)
    (hadded : newPolicyEvents chan signer now now' (.transferOwner newOwner) P policy = .ok added)
    (hafter : derivePolicy chan (P ++ added) = .ok after) :
    added ≠ [] ∧ applyPolicyAction policy signer.publicKey (.transferOwner newOwner) = .ok after := by
  rw [newPolicyEvents] at hadded
  split at hadded
  · rename_i hadopts
    simp only [bind_eq_ok, bailIf_eq_ok, pure_eq_ok] at hadded
    obtain ⟨_, -, adoption, hadoption, event, hevent, rfl⟩ := hadded
    obtain rfl := List.isEmpty_iff.1 hadopts.1
    obtain ⟨hactor, haction⟩ := fields_of_signPolicyEvent hadoption
    obtain ⟨hactor', haction'⟩ := fields_of_signPolicyEvent hevent
    have hfirst : [adoption] <+: [] ++ [adoption, event] := List.prefix_append [adoption] [event]
    obtain ⟨before, hbefore⟩ := exists_derivePolicy_of_prefix hfirst hafter
    -- the adoption leaves the policy that was in force
    have hadopted := derivePolicy_concat derivePolicy_nil hbefore
    rw [hactor, haction] at hadopted
    simp only [applyPolicyAction, bind_eq_ok, pure_eq_ok] at hadopted
    obtain ⟨_, -, rfl⟩ := hadopted
    have happlied := derivePolicy_concat hbefore hafter
    rw [hactor', haction'] at happlied
    exact ⟨List.cons_ne_nil _ _, happlied⟩
  · rename_i hnone
    simp only [bind_eq_ok, pure_eq_ok] at hadded
    obtain ⟨event, hevent, rfl⟩ := hadded
    obtain ⟨hactor, haction⟩ := fields_of_signPolicyEvent hevent
    refine ⟨List.cons_ne_nil _ _, ?_⟩
    cases P with
    | cons e events =>
      have happlied := derivePolicy_concat hcached hafter
      rwa [hactor, haction] at happlied
    | nil =>
      -- a channel that nobody owns is not transferred
      have happlied := derivePolicy_concat derivePolicy_nil hafter
      rw [hactor, haction] at happlied
      simp only [applyPolicyAction, bind_eq_ok, bailIf_eq_ok] at happlied
      obtain ⟨_, -, _, howner, -⟩ := happlied
      have hunowned : ChannelPolicy.default.owner ≠ some signer.publicKey := by rintro ⟨⟩
      exact absurd hunowned howner

/-- The keyring has the key. -/
def InKeyring (chan : ChannelRef) (key : ChannelKey) (d : Datadir) : Prop :=
  ∃ keys, loadKeys chan.fullName d = .ok keys ∧ key ∈ keys

/-- What the one who transfers a private channel then has: a history whose
policy shuts it out, the new key, and its own identity. -/
structure Transferred (chan : ChannelRef) (former : String) (key : ChannelKey)
    (P : List PolicyEvent) (d d' : Datadir) : Prop where
  history : readPolicyHistory chan d' = .ok P
  nonempty : P ≠ []
  shut : ∃ policy, derivePolicy chan P = .ok policy ∧ policyAllowsRead policy former = false
  closed : PolicyClosed chan d'
  identity : d'.identity = d.identity
  key : InKeyring chan key d'

/-- What a generated key leaves. -/
theorem exec_generateChannelKey_ok {k : ChannelKey}
    (h : (generateChannelKey chan.fullName raw).exec d = (.ok k, d')) :
    ∃ dir keys, d.channels[chan.fullName]? = some dir ∧
      d' = d.put chan.fullName { dir with channelKeys := .value (keys ++ [.ofRaw raw]) } := by
  cases hload : loadKeys chan.fullName d with
  | error e =>
    rw [generateChannelKey, Op.exec_query_bind] at h
    split at h
    · rw [Op.exec_query_bind, hload] at h
      cases h
    · cases h
  | ok keys =>
    cases hopen : openDir chan.fullName d with
    | error e =>
      rw [generateChannelKey, Op.exec_query_bind, hopen] at h
      cases h
    | ok dir =>
      have hdir := openDir_ok.1 hopen
      rw [exec_generateChannelKey hdir hload] at h
      cases h
      exact ⟨dir, _, hdir, rfl⟩

/-- A transfer of a private channel: the key, then the event. -/
theorem exec_transferOwnership_ok (hpolicy : readChannelPolicy chan d = .ok policy)
    (hprivate : policy.visibility = .private_) :
    (transferOwnership chan signer newOwner raw now now').exec d = (.ok after, d') ↔
      validatePublicKey newOwner = .ok () ∧ policy.owner = some signer.publicKey ∧
        ∃ key d₁, (generateChannelKey chan.fullName raw).exec d = (.ok key, d₁) ∧
          (appendPolicyAction chan signer now now' (.transferOwner newOwner)).exec d₁ =
            (.ok after, d') := by
  simp only [transferOwnership, Op.exec_bind_ok, Op.exec_except, Op.exec_query, Op.exec_bailIf,
    Prod.mk.injEq, bailIf_eq_ok, not_not]
  constructor
  · rintro ⟨_, _, ⟨hkey, rfl⟩, current, _, ⟨hcurrent, rfl⟩, _, _, ⟨howner, rfl⟩, h⟩
    obtain rfl := Except.ok.inj (hpolicy.symm.trans hcurrent)
    rw [if_pos hprivate, Op.exec_bind_ok] at h
    exact ⟨hkey, howner, h⟩
  · rintro ⟨hkey, howner, h⟩
    refine ⟨(), d, ⟨hkey, rfl⟩, policy, d, ⟨hpolicy, rfl⟩, (), d, ⟨howner, rfl⟩, ?_⟩
    rw [if_pos hprivate, Op.exec_bind_ok]
    exact h

theorem transferred (hclosed : PolicyClosed chan d)
    (hpolicy : readChannelPolicy chan d = .ok policy) (hprivate : policy.visibility = .private_)
    (hnone : ∀ role, ¬ HasRole policy role signer.publicKey)
    (hother : newOwner ≠ signer.publicKey)
    (htransfer : (transferOwnership chan signer newOwner raw now now').exec d = (.ok after, d')) :
    ∃ P, Transferred chan signer.publicKey (.ofRaw raw) P d d' := by
  obtain ⟨-, -, key, d₁, hgenerate, happend⟩ :=
    (exec_transferOwnership_ok hpolicy hprivate).1 htransfer
  -- the new key is written beside the policy file
  obtain ⟨dir, keys, hdir, rfl⟩ := exec_generateChannelKey_ok hgenerate
  obtain ⟨dir₁, log, P, cached, added, hopen, hP, hcached, hadded, hafter, rfl⟩ :=
    exec_appendPolicyAction_ok.1 happend
  obtain rfl := of_openLog (getElem?_put_self _ _ _) hopen
  rw [readChannelPolicy_of_getElem? hdir] at hpolicy
  have hset : policy ≠ .default := by
    rintro rfl
    cases hprivate
  obtain rfl := Except.ok.inj ((readPolicy_current hP hpolicy hset).symm.trans hcached)
  obtain ⟨hne, happlied⟩ := applied_of_transfer hcached hadded hafter
  have hclosed₁ : PolicyClosed chan
      (d.put chan.fullName { dir with channelKeys := .value (keys ++ [.ofRaw raw]) }) := by
    intro dir' hdir'
    rw [getElem?_put_self] at hdir'
    cases hdir'
    exact hclosed dir hdir
  refine ⟨P ++ added, ?_, ?_, ⟨after, hafter, ?_⟩, ?_, rfl, ?_⟩
  · exact readPolicyHistory_appended hclosed₁ (getElem?_put_self _ _ _) hP hafter after
  · exact List.append_ne_nil_of_right_ne_nil P hne
  · exact not_reads_of_transfer happlied hprivate hnone hother
  · exact policyClosed_appended hclosed₁ (getElem?_put_self _ _ _) hP after
  · refine ⟨keys ++ [.ofRaw raw], ?_, List.mem_append_right _ (List.mem_singleton_self _)⟩
    rw [loadKeys, getElem?_put_self]
    rfl

end Transfer

end Embernet
