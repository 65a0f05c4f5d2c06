import Embernet.Keys.Delivery
import Embernet.Log.Invariant
import Embernet.Model.Drafts
import Embernet.Signing.Tampering
import Embernet.Store.Histories
/-!
# Ciphertext — what enters a private log

A message is sealed when it is signed, if the policy that the signing read
is private. The append that follows looks at the author, the channel, the
signature and the id, and not at the body. So a text enters a private log
in two ways only: the channel becomes private between the signing of a post
and its append, or the text arrives from a peer.
-/

set_option autoImplicit false

namespace Embernet

open Primitives

section Ciphertext

variable [Primitives] {chan : ChannelRef} {d d' d₀ : Datadir} {records : List Envelope}
  {env : Envelope} {op : StoreOp}

/-- The policy in force is private. -/
def PrivateAt (chan : ChannelRef) (d : Datadir) : Prop :=
  ∃ policy, readChannelPolicy chan d = .ok policy ∧ policy.visibility = .private_

omit [Primitives] in
/-- The message is a text, and not sealed. -/
def Message.InClear (message : Message) : Prop := ∃ text, message.body = .text text

/-- The body of an envelope, as it is sent and kept, is in the clear. -/
def Envelope.InClear (env : Envelope) : Prop := env.msg.InClear

/-! ## What is signed -/

theorem not_inClear_of_encryptMessage {channel : String} {nonce : Bytes}
    {message encrypted : Message} (h : encryptMessage channel nonce message d = .ok encrypted) :
    ¬ encrypted.InClear := by
  unfold encryptMessage at h
  rintro ⟨text, htext⟩
  cases hbody : message.body with
  | text plain =>
    rw [hbody] at h
    simp only [Query.bind_ok, Query.pure_apply] at h
    obtain ⟨_, -, _, -, h⟩ := h
    cases h
    cases htext
  | encrypted keyId nonce' ciphertext =>
    rw [hbody] at h
    simp only [Query.bind_ok] at h
    obtain ⟨_, -, _, -, h⟩ := h
    cases h

/-- What a draft has become of its message: sealed, if the policy that was
read is private, and otherwise as it was. -/
def Draft.Faithful : Draft → Prop
  | .looked .. => True
  | .signed message policy env =>
    (policy.visibility = .private_ → ¬ env.InClear) ∧
      (policy.visibility ≠ .private_ → env.msg = message)

variable {policy : ChannelPolicy} {signer : KeypairFile} {message : Message} {raw nonce : Bytes}

/-- **Under a private policy what is signed is sealed.** -/
theorem faithful_of_signUnder
    (h : (signUnder chan policy signer message raw nonce).exec d = (.ok env, d')) :
    (Draft.signed message policy env).Faithful := by
  have hsealed {t t' : Datadir} (h : Op.exec (do
      let encrypted ← encryptMessage chan.fullName nonce message
      (Envelope.sign signer chan.fullName encrypted : Except Error Envelope) :
        StoreM Envelope) t = (.ok env, t')) : ¬ env.InClear := by
    obtain ⟨encrypted, u, hencrypted, h⟩ := Op.exec_bind_ok.1 h
    rw [Op.exec_query, Prod.mk.injEq] at hencrypted
    rw [Op.exec_except, Prod.mk.injEq, Envelope.sign_ok] at h
    obtain ⟨⟨sig, -, rfl⟩, -⟩ := h
    exact not_inClear_of_encryptMessage hencrypted.1
  unfold signUnder at h
  by_cases hprivate : policy.visibility = .private_
  · rw [if_pos hprivate] at h
    refine ⟨fun _ => ?_, fun hpublic => absurd hprivate hpublic⟩
    obtain ⟨keys, t, -, h⟩ := Op.exec_bind_ok.1 h
    dsimp only at h
    split at h
    · obtain ⟨key, u, -, h⟩ := Op.exec_bind_ok.1 h
      exact hsealed h
    · exact hsealed h
  · rw [if_neg hprivate, Op.exec_except, Prod.mk.injEq, Envelope.sign_ok] at h
    obtain ⟨⟨sig, -, rfl⟩, -⟩ := h
    exact ⟨fun h => absurd h hprivate, fun _ => rfl⟩

/-- Signing writes the first key of a channel, or nothing. -/
theorem exec_signUnder_state (chan : ChannelRef) (policy : ChannelPolicy) (signer : KeypairFile)
    (message : Message) (raw nonce : Bytes) (d : Datadir) :
    ((signUnder chan policy signer message raw nonce).exec d).2 = d ∨
      ((signUnder chan policy signer message raw nonce).exec d).2 =
        ((generateChannelKey chan.fullName raw).exec d).2 := by
  unfold signUnder
  split
  · rw [Op.exec_query_bind]
    cases loadKeys chan.fullName d with
    | error e => exact .inl rfl
    | ok keys =>
      dsimp only
      split
      · right
        rw [Op.exec_bind]
        rcases (generateChannelKey chan.fullName raw).exec d with ⟨e | key, t⟩
        · rfl
        · exact exec_encryptAndSign chan signer message nonce t
      · exact .inl (exec_encryptAndSign chan signer message nonce d)
  · exact .inl rfl

/-! ## The posts under way -/

variable {s s' s₀ : Outbox} {l : OutboxOp} {ls : List OutboxOp}

/-- Every draft is faithful to its message. -/
def Outbox.Faithful (s : Outbox) : Prop :=
  ∀ post draft, s.drafts post = some draft → draft.Faithful

omit [Primitives] in
theorem Outbox.Faithful.set (h : s.Faithful) (post : ℕ) {draft : Option Draft}
    (hdraft : ∀ new, draft = some new → new.Faithful) : (s.set post draft).Faithful := by
  intro other new hnew
  rcases eq_or_ne other post with rfl | hne
  · exact hdraft new (by rwa [Outbox.set_drafts_self] at hnew)
  · exact h other new (by rwa [Outbox.set_drafts_ne hne] at hnew)

/-- **Drafts stay faithful**, whatever else the node does. -/
theorem Outbox.Faithful.step (h : s.Faithful) (hstep : OutboxStep chan s l s') : s'.Faithful := by
  subst hstep
  cases l with
  | look post signer message =>
    show (s.look chan post signer message).Faithful
    unfold Outbox.look
    split
    · exact h.set post fun new hnew => by cases hnew; exact trivial
    · exact h.set post fun new hnew => by cases hnew
  | sign post raw nonce =>
    show (s.sign chan post raw nonce).Faithful
    unfold Outbox.sign
    split
    · split
      · next hsigned =>
        exact h.set post fun new hnew => by
          cases hnew
          exact faithful_of_signUnder hsigned
      · exact h.set post fun new hnew => by cases hnew
    · exact h
  | append post =>
    show (s.append chan post).Faithful
    unfold Outbox.append
    split
    · exact h.set post fun new hnew => by cases hnew
    · exact h
  | store op => exact h

/-- The step appends the envelope: that of a post, or one from a peer. -/
def Outbox.Brings (s : Outbox) (l : OutboxOp) (env : Envelope) : Prop :=
  l = .store (.appendMessage env) ∨
    ∃ post message policy, l = .append post ∧ s.drafts post = some (.signed message policy env)

/-- What a signing leaves of the node is what `signUnder` leaves of it. -/
theorem Outbox.sign_node (s : Outbox) (chan : ChannelRef) (post : ℕ) (raw nonce : Bytes) :
    (s.sign chan post raw nonce).node = s.node ∨
      (s.sign chan post raw nonce).node =
        ((generateChannelKey chan.fullName raw).exec s.node).2 := by
  unfold Outbox.sign
  split
  · next signer message policy hdraft =>
    have hstate := exec_signUnder_state chan policy signer message raw nonce s.node
    split
    · next hsigned =>
      rw [hsigned] at hstate
      exact hstate
    · next hfailed =>
      rw [hfailed] at hstate
      exact hstate
  · exact .inl rfl

/-- **Each step is an operation of the node**, an append where it brings an
envelope. -/
theorem Outbox.node_step (chan : ChannelRef) (s : Outbox) (l : OutboxOp) :
    ∃ op : StoreOp, (s.step chan l).node = op.exec chan s.node ∧
      ∀ env, op = .appendMessage env ↔ s.Brings l env := by
  -- a tail of no records stands for a step that writes nothing
  have hidle : s.node = StoreOp.exec chan (.readChannelTail 0 false) s.node := rfl
  cases l with
  | look post signer message =>
    refine ⟨.readChannelTail 0 false, ?_, fun env => iff_of_false nofun ?_⟩
    · rw [← hidle]
      show (s.look chan post signer message).node = s.node
      unfold Outbox.look
      split <;> rfl
    · rintro (hop | ⟨_, _, _, hop, -⟩) <;> cases hop
  | sign post raw nonce =>
    have hbrings (env : Envelope) : ¬ s.Brings (.sign post raw nonce) env := by
      rintro (hop | ⟨_, _, _, hop, -⟩) <;> cases hop
    rcases s.sign_node chan post raw nonce with hnode | hnode
    · exact ⟨.readChannelTail 0 false, hnode.trans hidle,
        fun env => iff_of_false nofun (hbrings env)⟩
    · exact ⟨.generateChannelKey raw, hnode.trans (exec_ignore _ _).symm,
        fun env => iff_of_false nofun (hbrings env)⟩
  | append post =>
    by_cases hsigned : ∃ message policy env, s.drafts post = some (.signed message policy env)
    · obtain ⟨message, policy, env, hdraft⟩ := hsigned
      refine ⟨.appendMessage env, (Outbox.append_node chan hdraft).trans (exec_ignore _ _).symm,
        fun env' => ?_⟩
      constructor
      · rintro hop
        cases hop
        exact .inr ⟨post, message, policy, rfl, hdraft⟩
      · rintro (hop | ⟨_, _, _, hop, hdraft'⟩)
        · cases hop
        · cases hop
          cases hdraft.symm.trans hdraft'
          rfl
    · have hsame : s.append chan post = s :=
        Outbox.append_of_not_signed chan fun message policy env hdraft =>
          hsigned ⟨message, policy, env, hdraft⟩
      refine ⟨.readChannelTail 0 false, (congrArg Outbox.node hsame).trans hidle,
        fun env => iff_of_false nofun ?_⟩
      rintro (hop | ⟨_, message, policy, hop, hdraft⟩)
      · cases hop
      · cases hop
        exact hsigned ⟨message, policy, env, hdraft⟩
  | store op =>
    refine ⟨op, rfl, fun env => ?_⟩
    constructor
    · rintro rfl
      exact .inl rfl
    · rintro (hop | ⟨_, _, _, hop, -⟩)
      · cases hop
        rfl
      · cases hop

/-- A run of an outbox is a run of its node. -/
theorem Outbox.node_run (hrun : Run (OutboxStep chan) s₀ ls s) :
    ∃ ops, Run (StoreStep chan) s₀.node ops s.node := by
  induction hrun with
  | nil => exact ⟨[], .nil _⟩
  | snoc _ hstep ih =>
    obtain ⟨ops, hinit⟩ := ih
    obtain ⟨op, hnode, -⟩ := Outbox.node_step chan _ _
    rw [← hstep] at hnode
    exact ⟨ops ++ [op], .snoc hinit hnode⟩

/-- The log stays in order. -/
theorem Outbox.exists_orderly {records₀ : List Envelope} (h₀ : Orderly chan s₀.node records₀)
    (hrun : Run (OutboxStep chan) s₀ ls s) : ∃ records, Orderly chan s.node records := by
  obtain ⟨ops, hops⟩ := Outbox.node_run hrun
  obtain ⟨more, hlog⟩ := h₀.run hops
  exact ⟨_, hlog⟩

/-- The append of a post enters its envelope, where that is acceptable. -/
theorem Outbox.enters_append (h : Orderly chan s.node records) {post : ℕ} {message : Message}
    {policy : ChannelPolicy} (hdraft : s.drafts post = some (.signed message policy env))
    (haccept : Acceptable chan s.node env) :
    LogHolds chan (s.step chan (.append post)).node (records ++ [env]) := by
  have hnode : (s.step chan (.append post)).node = StoreOp.exec chan (.appendMessage env) s.node :=
    (Outbox.append_node chan hdraft).trans (exec_ignore _ _).symm
  rw [hnode]
  exact h.enters_iff.2 ⟨rfl, haccept⟩

/-! ## What enters a private log -/

/-- Every record that a step enters while the policy is private is
encrypted. -/
def EntersCiphertext (chan : ChannelRef) (s₀ : Outbox) (ls : List OutboxOp) : Prop :=
  ∀ ls₁ l ls₂ s records env, ls = ls₁ ++ l :: ls₂ → Run (OutboxStep chan) s₀ ls₁ s →
    LogHolds chan s.node records → LogHolds chan (s.step chan l).node (records ++ [env]) →
    PrivateAt chan s.node → ¬ env.InClear

/-- **The switch between a signing and its append**: a post of a text was
signed under a policy that was not private, and is appended, and taken,
now that the channel is. -/
def AppendsOvertaken (chan : ChannelRef) (s : Outbox) (l : OutboxOp) : Prop :=
  ∃ post message policy env, l = .append post ∧
    s.drafts post = some (.signed message policy env) ∧ message.InClear ∧
    policy.visibility ≠ .private_ ∧ PrivateAt chan s.node ∧ Acceptable chan s.node env

/-- **A text from a peer**: it is given to `append_message`, and taken,
while the channel is private. -/
def TakesText (chan : ChannelRef) (s : Outbox) (l : OutboxOp) : Prop :=
  ∃ env, l = .store (.appendMessage env) ∧ env.InClear ∧ PrivateAt chan s.node ∧
    Acceptable chan s.node env

/-- What one step enters while the channel is private is encrypted, unless
the step is one of the two. -/
theorem Outbox.Faithful.enters_iff (h : s.Faithful) (hlog : Orderly chan s.node records)
    (hprivate : PrivateAt chan s.node) :
    (∃ env, LogHolds chan (s.step chan l).node (records ++ [env]) ∧ env.InClear) ↔
      AppendsOvertaken chan s l ∨ TakesText chan s l := by
  obtain ⟨op, hnode, hbrings⟩ := s.node_step chan l
  rw [hnode]
  simp only [hlog.enters_iff, hbrings]
  constructor
  · rintro ⟨env, ⟨rfl | ⟨post, message, policy, rfl, hdraft⟩, haccept⟩, hclear⟩
    · exact .inr ⟨env, rfl, hclear, hprivate, haccept⟩
    · obtain ⟨hsealed, hplain⟩ := h post _ hdraft
      have hpublic : policy.visibility ≠ .private_ := fun hp => hsealed hp hclear
      have hmessage : message.InClear := by
        rw [← hplain hpublic]
        exact hclear
      exact .inl ⟨post, message, policy, env, rfl, hdraft, hmessage, hpublic, hprivate, haccept⟩
  · rintro (⟨post, message, policy, env, rfl, hdraft, hmessage, hpublic, -, haccept⟩ |
      ⟨env, rfl, hclear, -, haccept⟩)
    · have hclear : env.InClear := by
        rw [Envelope.InClear, (h post _ hdraft).2 hpublic]
        exact hmessage
      exact ⟨env, ⟨.inr ⟨post, message, policy, rfl, hdraft⟩, haccept⟩, hclear⟩
    · exact ⟨env, ⟨.inl rfl, haccept⟩, hclear⟩

/-- **A private log holds ciphertext only**, of what was entered while it
was private, in exactly the runs that append no post overtaken by a switch
and take no text from a peer. The run starts with no post under way, over a
log in order. -/
theorem private_log_ciphertext {records₀ : List Envelope} (h₀ : Orderly chan s₀.node records₀)
    (hnone : ∀ post, s₀.drafts post = none) (ls : List OutboxOp) :
    EntersCiphertext chan s₀ ls ↔
      ∀ ls₁ l ls₂ s, ls = ls₁ ++ l :: ls₂ → Run (OutboxStep chan) s₀ ls₁ s →
        ¬ AppendsOvertaken chan s l ∧ ¬ TakesText chan s l := by
  have hfaithful : s₀.Faithful := fun post draft hdraft => by
    rw [hnone] at hdraft
    cases hdraft
  have hreached {ls₁ : List OutboxOp} {s : Outbox} (hrun : Run (OutboxStep chan) s₀ ls₁ s) :
      s.Faithful ∧ ∃ records, Orderly chan s.node records :=
    ⟨hrun.invariant (I := Outbox.Faithful) (fun _ _ _ h hstep => h.step hstep) hfaithful,
      Outbox.exists_orderly h₀ hrun⟩
  constructor
  · intro h ls₁ l ls₂ s hls hrun
    obtain ⟨hdrafts, records, horderly⟩ := hreached hrun
    rw [← not_or]
    intro hgives
    have hprivate : PrivateAt chan s.node := by
      rcases hgives with ⟨_, _, _, _, -, -, -, -, hprivate, -⟩ | ⟨_, -, -, hprivate, -⟩ <;>
        exact hprivate
    obtain ⟨env, henters, hclear⟩ :=
      (hdrafts.enters_iff horderly hprivate).2 hgives
    exact h ls₁ l ls₂ s records env hls hrun horderly.logHolds henters hprivate hclear
  · intro h ls₁ l ls₂ s records env hls hrun hlog henters hprivate hclear
    obtain ⟨hdrafts, records', horderly⟩ := hreached hrun
    obtain rfl := hlog.unique horderly.logHolds
    exact not_or.2 (h ls₁ l ls₂ s hls hrun)
      ((hdrafts.enters_iff horderly hprivate).1 ⟨env, henters, hclear⟩)

end Ciphertext

/-! ## A message signed before the switch -/

section Switch

open Simulated

attribute [local instance] simulated

/-- The owner restricts the channel and makes it private. -/
def madePrivate : List (UInt8 × PolicyAction) :=
  [(1, .restrict (identity 1).publicKey), (1, .setVisibility .private_)]

/-- The policy then. -/
def privatePolicy : ChannelPolicy where
  version := 1
  mode := .restricted
  visibility := .private_
  owner := some (identity 1).publicKey
  moderators := []
  writers := []
  readers := []

theorem derivePolicy_madePrivate :
    derivePolicy general (policyChain general none madePrivate) = .ok privatePolicy :=
  derivePolicy_policyChain general madePrivate (by decide +kernel)

theorem readChannelPolicy_newNode : readChannelPolicy general newNode = .ok .default := by
  have hdir : newNode.channels[general.fullName]? = some newDir := getElem?_put_self _ _ _
  rw [readChannelPolicy_of_getElem? hdir]
  rfl

/-- The history that makes the channel private arrives at a new node. -/
def switch : StoreOp := .appendRemotePolicyHistory (policyChain general none madePrivate)

/-- **The channel is private afterwards**, still without a record or a key. -/
theorem exists_switched :
    ∃ dir, switch.exec general newNode = newNode.put general.fullName dir ∧
      dir.log = some [] ∧ dir.channelKeys = .absent ∧
      readDirPolicy general dir = .ok privatePolicy := by
  have hopen : openLog general newNode = .ok (newDir, []) :=
    openLog_ok.2 ⟨getElem?_put_self _ _ _, rfl⟩
  have hnone : readPolicyLog general newDir = .ok [] := rfl
  have hremote := exec_appendRemotePolicyHistory hopen hnone derivePolicy_madePrivate
    (by simp [idPrefix])
  rw [List.length_nil, List.drop_zero] at hremote
  rw [switch]
  obtain ⟨P, hP⟩ : ∃ P, P = policyChain general none madePrivate := ⟨_, rfl⟩
  have hne : P ≠ [] := by rw [hP]; exact List.cons_ne_nil _ _
  have hderive : derivePolicy general P = .ok privatePolicy := hP ▸ derivePolicy_madePrivate
  rw [← hP] at hremote ⊢
  refine ⟨appendPolicyRecords P privatePolicy newDir, (eq_exec_ignore hremote).symm, ?_, ?_, ?_⟩
  · simp [appendPolicyRecords, newDir]
  · simp [appendPolicyRecords, newDir]
  · have hpolicyLog : (appendPolicyRecords P privatePolicy newDir).policyLog =
        some (policyCodec.records P) := by
      simp [appendPolicyRecords, hne, newDir]
    rw [readDirPolicy, if_pos (by rw [hpolicyLog]; rfl),
      readPolicyLog_records hpolicyLog hderive]
    exact hderive

/-- The owner may append to the private channel. -/
theorem acceptable_private {d : Datadir} (hpolicy : readChannelPolicy general d = .ok privatePolicy)
    (hempty : LogHolds general d []) (message : Message) :
    Acceptable general d (envelope general 1 message) where
  channel := rfl
  verified := verify_envelope general 1 message
  allowed := authorizeAppend_ok.2 ⟨privatePolicy, hpolicy, by
    simp [policyAllowsAppend, privatePolicy, envelope]⟩
  new records hrecords := by
    rw [hrecords.unique hempty]
    exact List.not_mem_nil

/-- A new node, with no post under way. -/
def quietNode : Outbox := ⟨newNode, fun _ => none⟩

/-- **The message enters the log after the switch, in the clear**: its
signing reads that the channel is public, the policy that makes the channel
private arrives, and the message is appended. -/
theorem text_enters_private_log :
    ∃ s, Orderly general quietNode.node [] ∧
      Run (OutboxStep general) quietNode
        [.look 0 (identity 1) hello, .sign 0 [] [], .store switch] s ∧
      PrivateAt general s.node ∧ LogHolds general s.node [] ∧
      LogHolds general (s.step general (.append 0)).node [envelope general 1 hello] ∧
      (envelope general 1 hello).InClear := by
  obtain ⟨dir, hswitch, hlog, -, hpolicy⟩ := exists_switched
  have hdir : (newNode.put general.fullName dir).channels[general.fullName]? = some dir :=
    getElem?_put_self _ _ _
  rw [← readChannelPolicy_of_getElem? hdir] at hpolicy
  -- the post is signed as it is, since the policy was read before the switch
  have hexec : (signUnder general .default (identity 1) hello [] []).exec newNode =
      (.ok (envelope general 1 hello), newNode) := by
    rw [signUnder, if_neg (by decide), Op.exec_except, sign_identity]
  let looked : Outbox := quietNode.set 0 (some (.looked (identity 1) hello .default))
  have hlooked : looked.drafts 0 = some (.looked (identity 1) hello .default) :=
    Outbox.set_drafts_self
  let signed : Outbox := looked.set 0 (some (.signed hello .default (envelope general 1 hello)))
  have hsigned : signed.drafts 0 = some (.signed hello .default (envelope general 1 hello)) :=
    Outbox.set_drafts_self
  let s : Outbox := { signed with node := newNode.put general.fullName dir }
  have hdraft : s.drafts 0 = some (.signed hello .default (envelope general 1 hello)) := hsigned
  have hrun : Run (OutboxStep general) quietNode
      [.look 0 (identity 1) hello, .sign 0 [] [], .store switch] s := by
    refine .snoc (t := signed) (.snoc (t := looked) (.snoc (.nil _) ?_) ?_) ?_
    · exact (Outbox.look_ok general readChannelPolicy_newNode).symm
    · exact (Outbox.sign_ok general hlooked hexec).symm
    · rw [OutboxStep, Outbox.step]
      exact congrArg (fun d => { signed with node := d }) hswitch.symm
  have hempty : LogHolds general s.node [] := ⟨dir, hdir, by simp [hlog]⟩
  have hfirst : Orderly general quietNode.node [] := emptyChannel_newNode.orderly
  obtain ⟨records, horderly⟩ := Outbox.exists_orderly hfirst hrun
  obtain rfl := hempty.unique horderly.logHolds
  exact ⟨s, hfirst, hrun, ⟨privatePolicy, hpolicy, rfl⟩, hempty,
    Outbox.enters_append horderly hdraft (acceptable_private hpolicy hempty hello), "hello", rfl⟩

/-! ## A message signed after it -/

/-- The owner's message, as the channel's first key seals it. -/
noncomputable def sealedHello : Envelope :=
  envelope general 1 (sealedUnder general.fullName (drawn 7) nonce "hello" hello)

/-- The channel's first key. -/
noncomputable def firstKey : List ChannelKey := [.ofRaw (drawn 7)]

/-- The owner's signing draws the first key of the private channel, and
seals the message. -/
theorem exec_signUnder_private {d : Datadir} {dir : Dir}
    (hdir : d.channels[general.fullName]? = some dir) (habsent : dir.channelKeys = .absent) :
    (signUnder general privatePolicy (identity 1) hello (drawn 7) nonce).exec d =
      (.ok sealedHello, d.put general.fullName { dir with channelKeys := .value firstKey }) := by
  have hlength : (drawn 7).length = 32 := by simp [drawn]
  have hnone : loadKeys general.fullName d = .ok [] := by
    simp [loadKeys, hdir, habsent]
  have hkeyed : loadKeys general.fullName (d.put general.fullName
      { dir with channelKeys := .value firstKey }) = .ok firstKey := loadKeys_put
  have htext : hello.body = .text "hello" := rfl
  obtain ⟨raw, -, hlast, hencrypt⟩ := exists_encryptMessage nonce hkeyed
    (Sound.nil.concat hlength (by simp)) (List.cons_ne_nil _ _) htext
  obtain rfl : raw = drawn 7 := by
    have hkey := congrArg (base64Decode ∘ ChannelKey.key) hlast
    simpa [firstKey, ChannelKey.ofRaw, base64Decode_base64Encode] using hkey.symm
  have hgenerate : (generateChannelKey general.fullName (drawn 7)).exec d =
      (.ok (.ofRaw (drawn 7)),
        d.put general.fullName { dir with channelKeys := .value firstKey }) :=
    exec_generateChannelKey hdir hnone
  have hprivate : privatePolicy.visibility = .private_ := rfl
  rw [signUnder, if_pos hprivate, Op.exec_query_bind, hnone]
  dsimp only
  rw [if_pos ⟨rfl, rfl⟩, Op.exec_bind_of_ok hgenerate, Op.exec_query_bind, hencrypt]
  dsimp only
  rw [Op.exec_except, sign_identity]
  rfl

/-- The law for a post after the switch: the channel becomes private, the
owner's message is signed under the key that is drawn, and what the append
enters is encrypted. -/
theorem private_log_ciphertext_sealed :
    ∃ s, Run (OutboxStep general) quietNode
        [.store switch, .look 0 (identity 1) hello, .sign 0 (drawn 7) nonce] s ∧
      PrivateAt general s.node ∧ LogHolds general s.node [] ∧
      LogHolds general (s.step general (.append 0)).node [sealedHello] ∧
      ¬ sealedHello.InClear := by
  obtain ⟨dir, hswitch, hlog, habsent, hpolicy⟩ := exists_switched
  have hexec := exec_signUnder_private (getElem?_put_self newNode general.fullName dir) habsent
  rw [put_put] at hexec
  have hdir := getElem?_put_self newNode general.fullName
    { dir with channelKeys := .value firstKey }
  have hprivate : readChannelPolicy general (newNode.put general.fullName
      { dir with channelKeys := .value firstKey }) = .ok privatePolicy := by
    rw [readChannelPolicy_of_getElem? hdir]
    exact hpolicy
  rw [← readChannelPolicy_of_getElem? (getElem?_put_self newNode _ _)] at hpolicy
  let switched : Outbox := { quietNode with node := newNode.put general.fullName dir }
  let looked : Outbox := switched.set 0 (some (.looked (identity 1) hello privatePolicy))
  have hlooked : looked.drafts 0 = some (.looked (identity 1) hello privatePolicy) :=
    Outbox.set_drafts_self
  let signed : Outbox := looked.set 0 (some (.signed hello privatePolicy sealedHello))
  have hsigned : signed.drafts 0 = some (.signed hello privatePolicy sealedHello) :=
    Outbox.set_drafts_self
  let s : Outbox := { signed with
    node := newNode.put general.fullName { dir with channelKeys := .value firstKey } }
  have hdraft : s.drafts 0 = some (.signed hello privatePolicy sealedHello) := hsigned
  have hrun : Run (OutboxStep general) quietNode
      [.store switch, .look 0 (identity 1) hello, .sign 0 (drawn 7) nonce] s := by
    refine .snoc (t := looked) (.snoc (t := switched) (.snoc (.nil _) ?_) ?_) ?_
    · exact congrArg (fun d => { quietNode with node := d }) hswitch.symm
    · exact (Outbox.look_ok general hpolicy).symm
    · exact (Outbox.sign_ok general hlooked hexec).symm
  have hempty : LogHolds general s.node [] := ⟨_, hdir, by simp [hlog]⟩
  have hfirst : Orderly general quietNode.node [] := emptyChannel_newNode.orderly
  obtain ⟨records, horderly⟩ := Outbox.exists_orderly hfirst hrun
  obtain rfl := hempty.unique horderly.logHolds
  have henters := Outbox.enters_append horderly hdraft (acceptable_private hprivate hempty _)
  refine ⟨s, hrun, ⟨privatePolicy, hprivate, rfl⟩, hempty, henters, ?_⟩
  -- every step of the run is neither an overtaken append nor a text from a peer
  refine (private_log_ciphertext hfirst (fun _ => rfl)
    [.store switch, .look 0 (identity 1) hello, .sign 0 (drawn 7) nonce, .append 0]).2 ?_
    _ _ [] _ [] _ rfl hrun hempty henters ⟨privatePolicy, hprivate, rfl⟩
  intro ls₁ l ls₂ t hls hrun'
  constructor
  · rintro ⟨post, message, policy, env, rfl, hpost, -, hpublic, -⟩
    obtain ⟨rfl, rfl⟩ : ls₁ = [.store switch, .look 0 (identity 1) hello,
        .sign 0 (drawn 7) nonce] ∧ post = 0 := by
      rcases ls₁ with _ | ⟨l₁, _ | ⟨l₂, _ | ⟨l₃, _ | ⟨l₄, ls⟩⟩⟩⟩ <;>
        simp only [List.nil_append, List.cons_append, List.cons.injEq, reduceCtorEq, false_and,
          and_false, OutboxOp.append.injEq] at hls
      · obtain ⟨rfl, rfl, rfl, rfl, -⟩ := hls
        exact ⟨rfl, rfl⟩
      · simp at hls
    obtain rfl : t = s := by
      rw [hrun'.eq_foldl fun _ _ _ h => h, hrun.eq_foldl fun _ _ _ h => h]
    rw [hdraft] at hpost
    cases hpost
    exact hpublic rfl
  · rintro ⟨env, rfl, -⟩
    have hmem : OutboxOp.store (.appendMessage env) ∈ [OutboxOp.store switch,
        .look 0 (identity 1) hello, .sign 0 (drawn 7) nonce, .append 0] := by
      rw [hls]
      simp
    simp [switch] at hmem

end Switch

end Embernet
