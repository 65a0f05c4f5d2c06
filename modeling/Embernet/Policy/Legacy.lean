import Embernet.Moderation.Citation
import Embernet.Store.Histories
/-!
# Legacy policies — a restricted policy with no signed history

A channel from before signed histories has its policy in `policy.json`
alone. Appending an action takes that policy over into a history, by the
owner's hand. Three other operations write the file from a signed history
and do not look at what it held: they put another policy in its place.
Apart from those, the policy stays until its owner adopts it.
-/

set_option autoImplicit false

namespace Embernet

open Primitives

section Legacy

variable [Primitives] {chan : ChannelRef} {owner : String} {policy : ChannelPolicy}
  {d d' : Datadir} {op : StoreOp} {events : List PolicyEvent}

/-- The channel has a restricted policy of that owner, and no signed
history. -/
structure LegacyPolicy (chan : ChannelRef) (owner : String) (policy : ChannelPolicy)
    (d : Datadir) : Prop where
  files : ∃ moderationLog, HasHistories chan ⟨none, .value policy, moderationLog⟩ d
  valid : checkPolicyCache policy = .ok policy
  restricted : policy.mode = .restricted
  owned : policy.owner = some owner

/-- The history begins with the owner's signed adoption of the policy. -/
def AdoptedBy (owner : String) (policy : ChannelPolicy) (events : List PolicyEvent) : Prop :=
  ∃ e rest, events = e :: rest ∧ e.action = .adopt policy ∧ e.actor = owner ∧
    verifyBytes e.actor e.sig e.signed = .ok ()

/-- Such a history is the channel's. -/
def HasAdopted (chan : ChannelRef) (owner : String) (policy : ChannelPolicy) (d : Datadir) : Prop :=
  ∃ events, readPolicyHistory chan d = .ok events ∧ AdoptedBy owner policy events

/-- **What puts another policy in the file's place**: rebuilding it from
the history there is not, and taking in a history, from a peer or from a
saved fork, that does not begin with the adoption. -/
def Displaces (chan : ChannelRef) (owner : String) (policy : ChannelPolicy) (d : Datadir) :
    StoreOp → Prop
  | .rebuildPolicyCache => True
  | .appendRemotePolicyHistory remote =>
    (∃ opened, openLog chan d = .ok opened) ∧ (∃ derived, derivePolicy chan remote = .ok derived) ∧
      ¬ AdoptedBy owner policy remote
  | .resolvePolicyConflict head =>
    (∃ opened, openLog chan d = .ok opened) ∧
      ∃ events, readSaved readPolicyEvent (policyConflictDir chan) head d = .ok events ∧
        events.getLast?.map PolicyEvent.id = some head ∧
        (∃ derived, derivePolicy chan events = .ok derived) ∧ ¬ AdoptedBy owner policy events
  | _ => False

/-- An operation that displaces no legacy policy. -/
def KeepsLegacy (chan : ChannelRef) (owner : String) (policy : ChannelPolicy) (d : Datadir)
    (op : StoreOp) : Prop :=
  LegacyPolicy chan owner policy d → ¬ Displaces chan owner policy d op

theorem LegacyPolicy.readChannelPolicy (h : LegacyPolicy chan owner policy d) :
    readChannelPolicy chan d = .ok policy := by
  obtain ⟨moderationLog, dir, hdir, hfiles⟩ := h.files
  simp only [Dir.histories, HistoryFiles.mk.injEq] at hfiles
  rw [readChannelPolicy_of_getElem? hdir, readDirPolicy, hfiles.1, readPolicyCache, hfiles.2.1]
  exact h.valid

theorem LegacyPolicy.readPolicyHistory (h : LegacyPolicy chan owner policy d) :
    readPolicyHistory chan d = .ok [] := by
  obtain ⟨moderationLog, dir, hdir, hfiles⟩ := h.files
  simp only [Dir.histories, HistoryFiles.mk.injEq] at hfiles
  rw [readPolicyHistory_of_getElem? hdir, readPolicyLog, hfiles.1]
  rfl

/-- Once a history that begins with the adoption is in the file, it is
adopted. -/
theorem hasAdopted_of_records {files : HistoryFiles} {derived : ChannelPolicy}
    (hfiles : HasHistories chan files d)
    (hlog : files.policyLog = some (policyCodec.records events))
    (h : derivePolicy chan events = .ok derived) (hadopted : AdoptedBy owner policy events) :
    HasAdopted chan owner policy d := by
  obtain ⟨dir, hdir, rfl⟩ := hfiles
  refine ⟨events, ?_, hadopted⟩
  rw [readPolicyHistory_of_getElem? hdir]
  exact readPolicyLog_records hlog h

/-- **What an action appends to a legacy policy** begins with its
adoption, by its owner. -/
theorem adoptedBy_of_newPolicyEvents (hlegacy : LegacyPolicy chan owner policy d)
    {signer : KeypairFile} {now now' : Int64} {action : PolicyAction} {derived : ChannelPolicy}
    (hnew : newPolicyEvents chan signer now now' action [] policy = .ok events)
    (hderived : derivePolicy chan events = .ok derived) : AdoptedBy owner policy events := by
  rw [newPolicyEvents, if_pos ⟨rfl, hlegacy.restricted⟩] at hnew
  simp only [bind_eq_ok, bailIf_eq_ok, not_not, pure_eq_ok] at hnew
  obtain ⟨_, howner, adoption, hadoption, event, -, rfl⟩ := hnew
  have hmem := mem_of_derivePolicy hderived (List.mem_cons_self (a := adoption))
  simp only [signPolicyEvent, bind_eq_ok, pure_eq_ok] at hadoption
  obtain ⟨sig, -, rfl⟩ := hadoption
  rw [hlegacy.owned] at howner
  exact ⟨_, _, rfl, rfl, (Option.some.inj howner).symm, hmem.2.2⟩

/-- **One operation**: the legacy policy stays, or is adopted. -/
theorem legacy_step (hlegacy : LegacyPolicy chan owner policy d)
    (hop : ¬ Displaces chan owner policy d op) :
    LegacyPolicy chan owner policy (op.exec chan d) ∨
      HasAdopted chan owner policy (op.exec chan d) := by
  obtain ⟨moderationLog, dir, hdir, hfiles⟩ := hlegacy.files
  obtain ⟨files, hchange, hafter⟩ := history_change op hdir
  rw [hfiles] at hchange
  have stays : ∀ moderationLog', files = ⟨none, .value policy, moderationLog'⟩ →
      LegacyPolicy chan owner policy (op.exec chan d) := fun moderationLog' h =>
    ⟨⟨moderationLog', h ▸ hafter⟩, hlegacy.valid, hlegacy.restricted, hlegacy.owned⟩
  cases hchange with
  | unchanged => exact Or.inl (stays _ rfl)
  | policyAction hcurrent hcached hnew hderived =>
    cases hcurrent
    cases hlegacy.valid.symm.trans (hcached rfl)
    have hadopted := adoptedBy_of_newPolicyEvents hlegacy hnew hderived
    refine Or.inr (hasAdopted_of_records hafter ?_ hderived hadopted)
    obtain ⟨e, rest, rfl, -⟩ := hadopted
    rfl
  | @policyRemote remote current derived hremote hopen hcurrent hderived hpre =>
    cases hcurrent
    subst hremote
    have hadopted : AdoptedBy owner policy remote := by
      by_contra hnot
      exact hop ⟨hopen, ⟨derived, hderived⟩, hnot⟩
    refine Or.inr (hasAdopted_of_records hafter ?_ hderived hadopted)
    obtain ⟨e, rest, rfl, -⟩ := hadopted
    rfl
  | policyRebuilt hrebuild _ _ =>
    subst hrebuild
    exact absurd trivial hop
  | @policyResolved head saved derived hresolve hopen hsaved hhead hderived =>
    subst hresolve
    have hadopted : AdoptedBy owner policy saved := by
      by_contra hnot
      exact hop ⟨hopen, saved, hsaved, hhead, ⟨derived, hderived⟩, hnot⟩
    exact Or.inr (hasAdopted_of_records hafter rfl hderived hadopted)
  | moderationAction => exact Or.inl (stays _ rfl)
  | moderationRemote => exact Or.inl (stays _ rfl)
  | moderationResolved => exact Or.inl (stays _ rfl)

/-- A remote history that is taken in is the channel's history, and its
policy the channel's. -/
theorem displaced_by_remote (hlegacy : LegacyPolicy chan owner policy d)
    (hopen : ∃ opened, openLog chan d = .ok opened) {derived : ChannelPolicy} (hne : events ≠ [])
    (h : derivePolicy chan events = .ok derived) :
    let d' := StoreOp.exec chan (.appendRemotePolicyHistory events) d
    readPolicyHistory chan d' = .ok events ∧ readChannelPolicy chan d' = .ok derived := by
  obtain ⟨⟨dir, log⟩, hopen⟩ := hopen
  obtain ⟨moderationLog, dir₁, hdir, hfiles⟩ := hlegacy.files
  obtain rfl : dir = dir₁ := of_openLog hdir hopen
  simp only [Dir.histories, HistoryFiles.mk.injEq] at hfiles
  have hcurrent : readPolicyLog chan dir = .ok [] := by
    rw [readPolicyLog, hfiles.1]
    rfl
  have hexec := exec_appendRemotePolicyHistory hopen hcurrent h (by simp [idPrefix])
  have hdir' : (StoreOp.exec chan (.appendRemotePolicyHistory events) d).channels[chan.fullName]? =
      some (appendPolicyRecords events derived dir) := by
    rw [StoreOp.exec, StoreOp.op, ← eq_exec_ignore hexec]
    exact getElem?_put_self _ _ _
  have hlog : (appendPolicyRecords events derived dir).policyLog =
      some (policyCodec.records events) := by
    simp [appendPolicyRecords, hne, hfiles.1]
  have hread := readPolicyLog_records hlog h
  refine ⟨(readPolicyHistory_of_getElem? hdir').trans hread, ?_⟩
  rw [readChannelPolicy_of_getElem? hdir', readDirPolicy, if_pos (by rw [hlog]; rfl), hread]
  exact h

/-- **A legacy policy stays until its owner adopts it**, in every run whose
operations displace none. -/
theorem legacy_policy_until_adopted {ops : List StoreOp}
    (hrun : Run (Under (KeepsLegacy chan owner policy) (StoreStep chan)) d ops d')
    (hlegacy : LegacyPolicy chan owner policy d) :
    readChannelPolicy chan d' = .ok policy ∨
      ∃ ops₁ ops₂ d₁, ops = ops₁ ++ ops₂ ∧ Run (StoreStep chan) d ops₁ d₁ ∧
        HasAdopted chan owner policy d₁ := by
  rcases hrun.holds_until (I := LegacyPolicy chan owner policy) (A := HasAdopted chan owner policy)
      (fun s op t hs hstep => by
        obtain ⟨hcond, rfl⟩ := hstep
        exact legacy_step hs (hcond hs)) hlegacy with hstays | ⟨ops₁, ops₂, d₁, rfl, hrun₁, hadopted⟩
  · exact Or.inl hstays.readChannelPolicy
  · exact Or.inr ⟨ops₁, ops₂, d₁, rfl, hrun₁.of_under, hadopted⟩

end Legacy

/-! ## A stranger's history -/

section Stranger

open Simulated

attribute [local instance] simulated

/-- The channel of a legacy owner: a policy file and no history. -/
def legacyDir : Dir := { log := some [], policyJson := .value (ownedPolicy []) }

/-- A node with that channel. -/
def legacyNode : Datadir := ({} : Datadir).put general.fullName legacyDir

theorem legacyPolicy_legacyNode :
    LegacyPolicy general (identity 1).publicKey (ownedPolicy []) legacyNode where
  files := ⟨none, legacyDir, getElem?_put_self _ _ _, rfl⟩
  valid := by decide +kernel
  restricted := rfl
  owned := rfl

/-- What somebody else signs on their own. -/
def strangersHistory : List PolicyEvent :=
  policyChain general none [(2, .restrict (identity 2).publicKey)]

/-- The policy that the stranger's history gives. -/
def strangersPolicy : ChannelPolicy :=
  { ChannelPolicy.default with mode := .restricted, owner := some (identity 2).publicKey }

theorem derivePolicy_strangersHistory :
    derivePolicy general strangersHistory = .ok strangersPolicy :=
  derivePolicy_policyChain general [(2, .restrict (identity 2).publicKey)]
    (by decide +kernel)

/-- **A stranger takes the channel over**: a history that a peer submits
displaces the legacy policy, and its owner has adopted nothing. -/
theorem stranger_displaces_legacy_policy :
    ∃ d', LegacyPolicy general (identity 1).publicKey (ownedPolicy []) legacyNode ∧
      Run (StoreStep general) legacyNode [.appendRemotePolicyHistory strangersHistory] d' ∧
      readChannelPolicy general d' = .ok strangersPolicy ∧ strangersPolicy ≠ ownedPolicy [] ∧
      ¬ HasAdopted general (identity 1).publicKey (ownedPolicy []) legacyNode ∧
      ¬ HasAdopted general (identity 1).publicKey (ownedPolicy []) d' := by
  have hdir : legacyNode.channels[general.fullName]? = some legacyDir := getElem?_put_self _ _ _
  have hopen : openLog general legacyNode = .ok (legacyDir, []) := openLog_ok.2 ⟨hdir, rfl⟩
  obtain ⟨hhistory, hpolicy⟩ := displaced_by_remote legacyPolicy_legacyNode ⟨_, hopen⟩
    (List.cons_ne_nil _ _) derivePolicy_strangersHistory
  refine ⟨_, legacyPolicy_legacyNode, Run.snoc (.nil _) rfl, hpolicy, by decide +kernel, ?_, ?_⟩
  · rintro ⟨events, hevents, e, rest, rfl, -⟩
    rw [readPolicyHistory_of_getElem? hdir] at hevents
    cases hevents
  · rintro ⟨events, hevents, e, rest, rfl, haction, -⟩
    have hfirst : some (policyEvent general 2 0 none (.restrict (identity 2).publicKey)) = some e :=
      congrArg List.head? (Except.ok.inj (hhistory.symm.trans hevents))
    obtain rfl := Option.some.inj hfirst
    have hrestrict : PolicyAction.restrict (identity 2).publicKey = .adopt (ownedPolicy []) :=
      haction
    cases hrestrict

/-- What the owner signs. -/
def ownersHistory : List PolicyEvent :=
  policyChain general none [(1, .adopt (ownedPolicy []))]

theorem derivePolicy_ownersHistory : derivePolicy general ownersHistory = .ok (ownedPolicy []) :=
  derivePolicy_policyChain general [(1, .adopt (ownedPolicy []))] (by decide +kernel)

theorem adoptedBy_ownersHistory :
    AdoptedBy (identity 1).publicKey (ownedPolicy []) ownersHistory :=
  ⟨_, [], rfl, rfl, rfl, verifyBytes_signatureOf 1 _⟩

/-- The law on that channel, where a peer brings the owner's adoption, and
then the file is rebuilt from it. -/
theorem legacy_policy_until_adopted_adopted :
    ∃ d₁ d',
      Run (StoreStep general) legacyNode [.appendRemotePolicyHistory ownersHistory] d₁ ∧
      readPolicyHistory general d₁ = .ok ownersHistory ∧
      Run (StoreStep general) d₁ [.rebuildPolicyCache] d' ∧
      (readChannelPolicy general d' = .ok (ownedPolicy []) ∨
        ∃ ops₁ ops₂ d₂, [.appendRemotePolicyHistory ownersHistory, .rebuildPolicyCache] =
            ops₁ ++ ops₂ ∧
          Run (StoreStep general) legacyNode ops₁ d₂ ∧
          HasAdopted general (identity 1).publicKey (ownedPolicy []) d₂) := by
  have hdir : legacyNode.channels[general.fullName]? = some legacyDir := getElem?_put_self _ _ _
  have hopen : openLog general legacyNode = .ok (legacyDir, []) := openLog_ok.2 ⟨hdir, rfl⟩
  have hne : ownersHistory ≠ [] := List.cons_ne_nil _ _
  have hadopted := adoptedBy_ownersHistory
  have hderived := derivePolicy_ownersHistory
  generalize ownersHistory = events at hne hadopted hderived ⊢
  obtain ⟨hhistory, -⟩ := displaced_by_remote legacyPolicy_legacyNode ⟨_, hopen⟩ hne hderived
  obtain ⟨d₁, hd₁⟩ :
    ∃ d₁, d₁ = StoreOp.exec general (.appendRemotePolicyHistory events) legacyNode := ⟨_, rfl⟩
  rw [← hd₁] at hhistory
  have hrun₁ : Run (StoreStep general) legacyNode [.appendRemotePolicyHistory events] d₁ :=
    .snoc (.nil _) hd₁
  have hadopts : KeepsLegacy general (identity 1).publicKey (ownedPolicy []) legacyNode
      (.appendRemotePolicyHistory events) := by
    rintro - ⟨-, -, hnot⟩
    exact hnot hadopted
  -- with a history there is no legacy policy to displace
  have hrebuilds : KeepsLegacy general (identity 1).publicKey (ownedPolicy []) d₁
      .rebuildPolicyCache := fun h _ =>
    hne (Except.ok.inj (hhistory.symm.trans h.readPolicyHistory))
  have hrun : Run (Under (KeepsLegacy general (identity 1).publicKey (ownedPolicy []))
      (StoreStep general)) legacyNode [.appendRemotePolicyHistory events, .rebuildPolicyCache] _ :=
    .snoc (.snoc (.nil legacyNode) ⟨hadopts, hd₁⟩) ⟨hrebuilds, rfl⟩
  exact ⟨d₁, _, hrun₁, hhistory, .snoc (.nil _) rfl,
    legacy_policy_until_adopted hrun legacyPolicy_legacyNode⟩

end Stranger

end Embernet
