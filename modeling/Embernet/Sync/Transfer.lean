import Embernet.Model.Sessions
import Embernet.Store.Ownership
import Embernet.Sync.Reconciliation
/-!
# Transfer — the key that a transfer makes stays where it is

After a transfer the former owner is no member, so a session between it
and the new owner ends before any key is sent. Where the former owner
asks, the new owner takes in the transfer and refuses it; where it serves,
it finds that it may not serve the channel. Both hold whichever histories
the two had, unless the new owner's goes on beyond the transfer and takes
the former owner back.
-/

set_option autoImplicit false

namespace Embernet

open Proc Primitives

section Transfer

variable [Primitives] {chan : ChannelRef} {d d' : Datadir} {key : String}
  {policy : ChannelPolicy}

/-! ## The node that serves -/

/-- No policy that the history derives lets the key read. -/
def ShutOut (chan : ChannelRef) (key : String) (P : List PolicyEvent) : Prop :=
  ∀ policy, derivePolicy chan P = .ok policy → policyAllowsRead policy key = false

/-- Nor does the policy in force. -/
def ShutAt (chan : ChannelRef) (key : String) (d : Datadir) : Prop :=
  ∀ policy, readChannelPolicy chan d = .ok policy → policyAllowsRead policy key = false

/-- The node's history and the one it is brought shut the key out, whichever
of them the other goes on from. -/
structure Bars (chan : ChannelRef) (key : String) (U : Set Bytes) (R : List PolicyEvent)
    (d : Datadir) : Prop where
  closed : PolicyClosed chan d
  hashed : policyPayloads R ⊆ U
  history : ∀ L, readPolicyHistory chan d = .ok L → policyPayloads L ⊆ U ∧ (L ≠ [] ∨ R ≠ []) ∧
    (idPrefix PolicyEvent.id R L = true → ShutOut chan key L) ∧
    (idPrefix PolicyEvent.id L R = true → ShutOut chan key R)

omit [Primitives] in
/-- A packet for the channel, by that requester, with that history. -/
def Asks (chan : ChannelRef) (requester : String) (R : List PolicyEvent) (m : Frame) : Prop :=
  ∃ status, m = .status status ∧ status.channel = chan.fullName ∧
    status.requester = requester ∧ status.policyEvents = R

omit [Primitives] in
/-- What a session sends before its keys: a challenge, or a history that
is to be taken in or saved. -/
inductive BeforeKeys : Frame → Prop
  | challenge (m : AuthChallenge) : BeforeKeys (.challenge m)
  | policySync {m : PolicySync} : m.msgType = "policy_sync" →
      m.status = "update" ∨ m.status = "conflict" → BeforeKeys (.policySync m)
  | moderationSync {m : ModerationSync} : m.msgType = "moderation_sync" →
      m.status = "update" ∨ m.status = "conflict" → BeforeKeys (.moderationSync m)

omit [Primitives] in
/-- A read sends nothing: what holds of all that may follow it holds. -/
theorem post_ask_bind {α β : Type} {Out : Frame → Prop} {R : β → Datadir → Prop} {l : Call}
    {q : ReadM α} {f : α → Session β} (h : ∀ a, q d = .ok a → SoloPost Out R (f a) d) :
    SoloPost Out R (ask l q >>= f) d :=
  .bind (.call fun a t hexec => by
    rw [Op.exec_query] at hexec
    cases (Prod.mk.inj hexec).2
    exact h a (Prod.mk.inj hexec).1)

omit [Primitives] in
/-- The identity is read from its own file. -/
theorem loadIdentity_congr (h : d'.identity = d.identity) : loadIdentity d' = loadIdentity d := by
  rw [loadIdentity, loadIdentity, h]

namespace Responder

variable {requester : String} {status : StatusMessage} {L R : List PolicyEvent} {U : Set Bytes}

/-- **After the histories are reconciled** the key stays shut out: the node
holds the longer history, and the longer one shuts it out. -/
theorem post_takePolicy (hclosed : PolicyClosed chan d) (hL : readPolicyHistory chan d = .ok L)
    (hR : derivePolicy chan R = .ok policy) (hU : Set.InjOn blake3 U)
    (hLU : policyPayloads L ⊆ U) (hRU : policyPayloads R ⊆ U) (hne : L ≠ [] ∨ R ≠ [])
    (hshutL : idPrefix PolicyEvent.id R L = true → ShutOut chan key L)
    (hshutR : idPrefix PolicyEvent.id L R = true → ShutOut chan key R) :
    SoloPost BeforeKeys (fun _ t => ShutAt chan key t ∧ t.identity = d.identity)
      (takePolicy chan L R) d := by
  obtain ⟨dir, hdir, hlog⟩ := readPolicyHistory_ok.1 hL
  rw [takePolicy]
  split
  · exact .bind (.call fun _ _ _ => .bind (.emit (.policySync rfl (.inr rfl)) .fail))
  · rename_i hrelated
    split
    · rename_i hlonger
      rw [Bool.and_eq_true, decide_eq_true_eq] at hlonger
      obtain ⟨hpre, hlt⟩ := hlonger
      refine .bind (.call fun after t hexec => .pure ?_)
      obtain ⟨log, hopen⟩ : ∃ log, openLog chan d = .ok (dir, log) := by
        cases hopen : openLog chan d with
        | error e =>
          rw [appendRemotePolicyHistory, Op.exec_query_bind, hopen] at hexec
          cases hexec
        | ok opened => exact ⟨opened.2, by rw [← of_openLog hdir hopen]⟩
      rw [exec_appendRemotePolicyHistory hopen hlog hR hpre] at hexec
      cases hexec
      obtain ⟨policyL, hpolicyL⟩ := (readPolicyLog_ok.1 hlog).2
      have hexchange := derivePolicy_exchange hU hpolicyL hR hLU hRU (idPrefix_iff.1 hpre)
      have hread := readPolicyHistory_appended hclosed hdir hlog hexchange policy
      refine ⟨fun after hafter => ?_, rfl⟩
      have hlonger : L ++ R.drop L.length ≠ [] := by
        refine List.append_ne_nil_of_right_ne_nil L fun hnil => ?_
        have := List.drop_eq_nil_iff.1 hnil
        omega
      rw [readChannelPolicy_of_history hread hlonger, hexchange] at hafter
      exact hshutR hpre after (hafter ▸ hR)
    · rename_i hnone
      refine .pure ⟨fun after hafter => ?_, rfl⟩
      rw [Bool.not_eq_true, ← related_iff] at hrelated
      have hlonger := hrelated.idPrefix_longer
      rw [longer] at hlonger
      split at hlonger
      · exact absurd (by simp [hlonger.1, *]) hnone
      rename_i hle
      have hpre : idPrefix PolicyEvent.id R L = true := hlonger.2
      have hnonempty : L ≠ [] := by
        rintro rfl
        rw [List.length_nil, Nat.not_lt, Nat.le_zero, List.length_eq_zero_iff] at hle
        simp [hle] at hne
      rw [readChannelPolicy_of_history hL hnonempty] at hafter
      exact hshutL hpre after hafter

/-- The reconciled policy is sent to somebody else than the one who is shut
out. -/
theorem post_sendPolicy (hshut : ShutAt chan key d) :
    SoloPost BeforeKeys (fun _ t => t = d ∧ requester ≠ key) (sendPolicy chan requester) d := by
  refine post_ask_bind fun reconciled hread => .bind (.bailIf fun hreads => ?_)
  refine post_ask_bind fun events _ => .emit (.policySync rfl (.inl rfl)) ⟨rfl, ?_⟩
  rintro rfl
  exact hreads (hshut reconciled hread)

omit [Primitives] in
/-- No write to a channel touches the identity. -/
theorem keeps_identity_modifyDir {path : String} {f : Dir → Dir} {j : JsonFile KeypairFile} :
    Op.Keeps (fun d => d.identity = j) (modifyDir path f) := fun _ h => h

/-- What the moderation brings touches neither the policy nor the
identity. -/
theorem post_takeModeration (remote : List ModerationEvent) :
    SoloPost BeforeKeys
      (fun _ t => readChannelPolicy chan t = readChannelPolicy chan d ∧ t.identity = d.identity)
      (takeModeration chan remote) d := by
  refine post_ask_bind fun state _ => post_ask_bind fun events _ => ?_
  dsimp only
  split
  · exact .bind (.call fun _ _ _ => .bind (.emit (.moderationSync rfl (.inr rfl)) .fail))
  split
  · refine .bind (.call fun state' t hexec => .pure ⟨?_, ?_⟩)
    · have hop : t = StoreOp.exec chan (.appendRemoteModerationHistory remote) d :=
        eq_exec_ignore hexec
      rw [hop]
      exact readChannelPolicy_storeOp (by simp [StoreOp.parts]) d
    · have hkeeps : Op.Keeps (fun t => t.identity = d.identity)
          (appendRemoteModerationHistory chan remote) :=
        .bind (.query _) fun _ => .bind (.query _) fun _ => .bind (.query _) fun _ =>
          .bind .bailIf fun _ => .bind keeps_identity_modifyDir fun _ => .pure _
      have hidentity := hkeeps d rfl
      rwa [hexec] at hidentity
  · exact .pure ⟨rfl, rfl⟩

/-- The moderation history goes out before the keys. -/
theorem post_sendModeration : SoloPost BeforeKeys (fun _ t => t = d) (sendModeration chan) d :=
  post_ask_bind fun _ _ => .emit (.moderationSync rfl (.inl rfl)) rfl

/-- **No keys are sent** by or to the one that is shut out. -/
theorem post_sendKeys {nonces : ℕ → Bytes} (hshut : ShutAt chan key d)
    (hkey : status.requester = key ∨ ∀ identity, loadIdentity d = .ok identity →
      identity.publicKey = key) :
    SoloPost BeforeKeys (fun _ _ => False) (sendKeys chan status nonces) d := by
  refine post_ask_bind fun policy hread => .bind (.bailIf fun hreads => ?_)
  have hout := hshut policy hread
  rcases hkey with rfl | hserves
  · exact absurd hout hreads
  · refine .bind ?_
    rw [serverIdentity, if_pos (private_of_not_reads hout)]
    refine post_ask_bind fun identity hload => .bind (.bailIf fun hreads => ?_)
    rw [hserves identity (context_eq_ok.1 hload)] at hreads
    exact absurd hout hreads

/-- **A session ends before its keys**, where the one that is shut out asks
or serves. -/
theorem post_reconcile {nonces : ℕ → Bytes} (hU : Set.InjOn blake3 U)
    (hbars : Bars chan key U status.policyEvents d)
    (hderive : derivePolicy chan status.policyEvents = .ok policy)
    (hkey : status.requester = key ∨ ∀ identity, loadIdentity d = .ok identity →
      identity.publicKey = key) :
    SoloPost BeforeKeys (fun _ _ => False) (reconcile chan status nonces) d := by
  refine .bind (post_ask_bind fun L hL => post_ask_bind fun current _ => .bind (.bailIf fun _ =>
    .pure ?_))
  obtain ⟨hLU, hne, hshutL, hshutR⟩ := hbars.history L hL
  refine .bind ((post_takePolicy hbars.closed hL hderive hU hLU hbars.hashed hne hshutL
    hshutR).mono fun _ d₁ h₁ => .bind ((post_sendPolicy h₁.1).mono ?_))
  rintro _ d₂ ⟨rfl, hasks⟩
  refine .bind ((post_takeModeration _).mono fun _ d₃ h₃ => .bind (post_sendModeration.mono ?_))
  rintro _ d₄ rfl
  have hshut : ShutAt chan key d₄ := fun policy hread => h₁.1 policy (h₃.1 ▸ hread)
  refine post_sendKeys hshut (.inr fun identity hload => ?_)
  rw [loadIdentity_congr (h₃.2.trans h₁.2)] at hload
  exact (hkey.resolve_left hasks) identity hload

/-- **No session with a barred party gets past the histories.** -/
theorem post_resume {challenge : AuthChallenge} {i : Option Frame} {ambient : Ambient}
    (hU : Set.InjOn blake3 U) (hbars : Bars chan key U R d)
    (hkey : requester = key ∨ ∀ identity, loadIdentity d = .ok identity →
      identity.publicKey = key)
    (hi : ∀ m ∈ i, Asks chan requester R m) :
    SoloPost BeforeKeys (fun _ _ => False)
      (resume (.status challenge) (arrival i, ambient)) d := by
  refine .bind (.except fun status hread => .bind (.except fun chan' hcheck => ?_))
  cases i with
  | none => cases hread
  | some m =>
    obtain ⟨status', rfl, hchannel, rfl, rfl⟩ := hi m rfl
    -- the frame reads as the packet that it is
    obtain rfl : status' = status := by
      simp only [arrival, readStatus, bind_eq_ok, orBail_eq_ok, bailIf_eq_ok, pure_eq_ok] at hread
      obtain ⟨_, hdecoded, _, -, rfl⟩ := hread
      exact Option.some.inj hdecoded
    have hchecked := (checkStatus_ok.1 hcheck).1
    obtain ⟨policy, hderive⟩ := hchecked.policy
    have hparse := hchecked.channel
    rw [hchannel, ChannelRef.parse_fullName] at hparse
    cases hparse
    exact post_reconcile hU hbars hderive hkey

end Responder

/-! ## The keyring -/

omit [Primitives] in
/-- The channel's keyring is this file. -/
def KeyringIs (chan : ChannelRef) (keyring : JsonFile (List ChannelKey)) : Datadir → Prop :=
  DirIs chan.fullName fun o => o.elim .absent Dir.channelKeys = keyring

omit [Primitives] in
/-- Every channel has a keyring, if an absent one. -/
theorem exists_keyringIs (chan : ChannelRef) (d : Datadir) : ∃ keyring, KeyringIs chan keyring d :=
  ⟨_, rfl⟩

omit [Primitives] in
/-- The keys in a keyring file. -/
def keysIn : JsonFile (List ChannelKey) → Except Error (List ChannelKey)
  | .absent => pure []
  | .malformed => bail "invalid channel keyring channel-keys.json"
  | .value keys => pure keys

omit [Primitives] in
/-- The keyring that a channel has is the one loaded. -/
theorem loadKeys_of_keyringIs {keyring : JsonFile (List ChannelKey)}
    (h : KeyringIs chan keyring d) : loadKeys chan.fullName d = keysIn keyring := by
  rw [KeyringIs, DirIs] at h
  rw [loadKeys]
  cases hdir : d.channels[chan.fullName]? with
  | none =>
    rw [hdir] at h
    rw [← h]
    rfl
  | some dir =>
    rw [hdir] at h
    rw [← h]
    rfl

omit [Primitives] in
/-- A keyring that stays has the keys it had. -/
theorem inKeyring_congr {keyring : JsonFile (List ChannelKey)} {k : ChannelKey}
    (h : KeyringIs chan keyring d) (h' : KeyringIs chan keyring d') :
    InKeyring chan k d' ↔ InKeyring chan k d := by
  rw [InKeyring, InKeyring, loadKeys_of_keyringIs h, loadKeys_of_keyringIs h']

/-- A call that leaves the keyring. -/
def KeepsKeyring (chan : ChannelRef) (keyring : JsonFile (List ChannelKey)) (β : Type) (_ : Call)
    (x : StoreM β) : Prop := Op.Keeps (KeyringIs chan keyring) x

section Free

variable {keyring : JsonFile (List ChannelKey)} {chan' : ChannelRef}

omit [Primitives] in
/-- A read keeps the keyring. -/
theorem keepsKeyring_query {β : Type} {l : Call} (q : ReadM β) :
    KeepsKeyring chan keyring β l (liftM q) := .query q

/-- What a session does before its keys is of that kind. -/
theorem keepsKeyring_op {l : Call} {β : Type} {x : StoreM β} (op : StoreOp)
    (hop : op.op chan' = ignore x)
    (hparts : ∀ part ∈ op.parts, part ≠ .keys) : KeepsKeyring chan keyring β l x := by
  have hfree : ∀ part ∈ op.parts, part.Free chan' chan.fullName
      fun o => o.elim .absent Dir.channelKeys = keyring := by
    intro part hpart
    cases part with
    | keys => exact absurd rfl (hparts _ hpart)
    | made => exact fun h => h
    | index => exact fun _ _ _ _ _ _ h => h
    | touch => exact fun _ o h => by cases o <;> exact h
    | _ => exact fun _ o _ _ h => by cases o <;> exact h
  intro d hd
  rw [← exec_ignore, ← hop]
  exact keeps_storeOp hfree d hd

/-- Taking in a policy does not touch it. -/
theorem each_takePolicy (localPolicy remote : List PolicyEvent) :
    (Responder.takePolicy chan' localPolicy remote).Each (KeepsKeyring chan keyring) := by
  rw [Responder.takePolicy]
  split
  · exact (each_call (keepsKeyring_op (.savePolicyConflict remote) rfl
      (by simp [StoreOp.parts]))).bind fun _ => trivial
  split
  · exact (each_call (keepsKeyring_op (.appendRemotePolicyHistory remote) rfl
      (by simp [StoreOp.parts]))).bind fun _ => trivial
  · trivial

/-- Taking in a moderation does not touch the keyring. -/
theorem each_takeModeration (remote : List ModerationEvent) :
    (Responder.takeModeration chan' remote).Each (KeepsKeyring chan keyring) := by
  refine (each_call (keepsKeyring_query _)).bind fun _ =>
    (each_call (keepsKeyring_query _)).bind fun _ => ?_
  dsimp only
  split
  · exact (each_call (keepsKeyring_op (.saveModerationConflict remote) rfl
      (by simp [StoreOp.parts]))).bind fun _ => trivial
  split
  · exact (each_call (keepsKeyring_op (.appendRemoteModerationHistory remote) rfl
      (by simp [StoreOp.parts]))).bind fun _ => trivial
  · trivial

/-- **The serving node's keyring stays** up to the point where it waits
for keys. -/
theorem each_resume_status (challenge : AuthChallenge) (i : Incoming × Ambient) :
    (Responder.resume (.status challenge) i).Each (KeepsKeyring chan keyring) := by
  refine (each_except _).bind fun status => (each_except _).bind fun chan' => ?_
  have hquery {β : Type} {l : Call} (q : ReadM β) : (ask l q).Each (KeepsKeyring chan keyring) :=
    each_call (keepsKeyring_query q)
  have hadmit : (Responder.admitRequester chan' status.requester).Each
      (KeepsKeyring chan keyring) :=
    (hquery _).bind fun _ => (hquery _).bind fun _ => each_bailIf.bind fun _ => trivial
  have hsend : (Responder.sendPolicy chan' status.requester).Each (KeepsKeyring chan keyring) :=
    (hquery _).bind fun _ => each_bailIf.bind fun _ => (hquery _).bind fun _ => trivial
  have hmoderation : (Responder.sendModeration chan').Each (KeepsKeyring chan keyring) :=
    (hquery _).bind fun _ => trivial
  refine hadmit.bind fun _ => (each_takePolicy _ _).bind fun _ => hsend.bind fun _ =>
    (each_takeModeration _).bind fun _ => hmoderation.bind fun _ => ?_
  have hreading : (Responder.sendKeys chan' status i.2.nonces).Each Reading := reading_sendKeys
  refine hreading.mono fun β l x hx d hd => ?_
  rw [hx d]
  exact hd

end Free

/-! ## The two of them -/

section Session

variable {keyring : JsonFile (List ChannelKey)} {requester : String} {R : List PolicyEvent}
  {U : Set Bytes} {K : Datadir → Prop}

/-- Where a node stands that asks, with what it will say of itself. -/
def CallerAt (chan : ChannelRef) (requester : String) (R : List PolicyEvent)
    (K : Datadir → Prop) : Except Error Initiator.Await → Datadir → Prop
  | .ok (.challenge chan' _ policyEvents _ identity _), d =>
    chan' = chan ∧ policyEvents = R ∧ identity.publicKey = requester ∧ K d
  | _, d => K d

/-- Where a node stands that serves: it has done nothing yet, or its
session has failed. -/
def ServerAt (d₀ : Datadir) (K : Datadir → Prop) : Except Error Responder.Await → Datadir → Prop
  | .ok w, d => (∃ challenge, w = .status challenge) ∧ d = d₀
  | .error _, d => K d

omit [Primitives] in
/-- Up to the keys, one that asks says no more than its packet. -/
theorem callerAt_of_post {p : Session Initiator.Await}
    (hpost : SoloPost (Asks chan requester R) (fun a _ => ∃ c identity n,
      a = .frames c identity n) p d)
    (heach : p.Each fun β _ x => Op.Keeps K (x : StoreM β)) (hK : K d) :
    CallerAt chan requester R K (p.solo d).2.1 (p.solo d).2.2 ∧
      ∀ m ∈ (p.solo d).1, Asks chan requester R m := by
  have hkeeps : K (p.solo d).2.2 := solo_keeps heach (fun _ _ _ hx => hx) hK
  refine ⟨?_, hpost.1⟩
  rcases hr : (p.solo d).2.1 with e | a
  · exact hkeeps
  · obtain ⟨c, identity, n, rfl⟩ := hpost.2 a hr
    exact hkeeps

/-- The client says nothing to a policy frame. -/
theorem post_takePolicySync {Out : Frame → Prop} (chan' : ChannelRef) (m : PolicySync) :
    SoloPost Out (fun _ _ => True) (Initiator.takePolicySync chan' m) d := by
  rw [Initiator.takePolicySync]
  split
  · exact .bind (.call fun _ _ _ => .fail)
  · exact .bind (.bailIf fun _ => .bind (.call fun _ _ _ => .pure trivial))

/-- The client says nothing to a moderation frame. -/
theorem post_takeModerationSync {Out : Frame → Prop} (chan' : ChannelRef) (m : ModerationSync) :
    SoloPost Out (fun _ _ => True) (Initiator.takeModerationSync chan' m) d := by
  rw [Initiator.takeModerationSync]
  split
  · exact .bind (.call fun _ _ _ => .fail)
  · exact .bind (.bailIf fun _ => .bind (.call fun _ _ _ => .pure trivial))

/-- And a policy frame leaves its keyring. -/
theorem each_takePolicySync (chan' : ChannelRef) (m : PolicySync) :
    (Initiator.takePolicySync chan' m).Each (KeepsKeyring chan keyring) := by
  rw [Initiator.takePolicySync]
  split
  · exact (each_call (keepsKeyring_op (.savePolicyConflict m.events) rfl
      (by simp [StoreOp.parts]))).bind fun _ => trivial
  · exact each_bailIf.bind fun _ => (each_call (keepsKeyring_op
      (.appendRemotePolicyHistory m.events) rfl (by simp [StoreOp.parts]))).bind
        fun _ => trivial

/-- As a moderation frame does. -/
theorem each_takeModerationSync (chan' : ChannelRef) (m : ModerationSync) :
    (Initiator.takeModerationSync chan' m).Each (KeepsKeyring chan keyring) := by
  rw [Initiator.takeModerationSync]
  split
  · exact (each_call (keepsKeyring_op (.saveModerationConflict m.events) rfl
      (by simp [StoreOp.parts]))).bind fun _ => trivial
  · exact each_bailIf.bind fun _ => (each_call (keepsKeyring_op
      (.appendRemoteModerationHistory m.events) rfl (by simp [StoreOp.parts]))).bind
        fun _ => trivial

/-- **The node that asks** keeps its keyring while it hears no keys. -/
theorem keeps_caller : Initiator.conduct.Keeps
    (CallerAt chan requester R (KeyringIs chan keyring)) BeforeKeys (Asks chan requester R) := by
  intro w d i given hw hstays hi
  cases w with
  | done n => exact absurd trivial hstays
  | challenge chan' chunks P M identity ts =>
    obtain ⟨rfl, rfl, rfl, hkeys⟩ := hw
    refine callerAt_of_post ?_ ?_ hkeys
    · refine .bind (.except fun challenge _ => .bind (.except fun status hstatus => ?_))
      obtain ⟨_, _, -, -, -, rfl⟩ := Initiator.answerChallenge_ok.1 hstatus
      exact .bind (.emit ⟨_, rfl, rfl, rfl, rfl⟩ (.pure ⟨_, _, _, rfl⟩))
    · exact (each_except _).bind fun _ => (each_except _).bind fun _ => trivial
  | frames chan' identity n =>
    have hkeys : KeyringIs chan keyring d := hw
    cases i with
    | none => exact callerAt_of_post .fail trivial hkeys
    | some m =>
      cases hi m rfl with
      | challenge m => exact callerAt_of_post .fail trivial hkeys
      | @policySync m htype hstatus =>
        have hresume : Initiator.conduct.resume (.frames chan' identity n)
            (some (.policySync m)) given = (do
              Initiator.takePolicySync chan' m
              pure (.frames chan' identity n)) := by
          obtain ⟨hcomplete, herror⟩ := Initiator.ne_of_update_or_conflict hstatus
          change Initiator.handle chan' identity n given.nonces (Initiator.classify _) = _
          rw [Initiator.classify_policySync htype hcomplete herror]
          rfl
        rw [hresume]
        exact callerAt_of_post (.bind ((post_takePolicySync chan' m).mono fun _ _ _ =>
          .pure ⟨_, _, _, rfl⟩)) ((each_takePolicySync chan' m).bind fun _ => trivial) hkeys
      | @moderationSync m htype hstatus =>
        have hresume : Initiator.conduct.resume (.frames chan' identity n)
            (some (.moderationSync m)) given = (do
              Initiator.takeModerationSync chan' m
              pure (.frames chan' identity n)) := by
          obtain ⟨hcomplete, herror⟩ := Initiator.ne_of_update_or_conflict hstatus
          change Initiator.handle chan' identity n given.nonces (Initiator.classify _) = _
          rw [Initiator.classify_moderationSync htype hcomplete herror]
          rfl
        rw [hresume]
        exact callerAt_of_post (.bind ((post_takeModerationSync chan' m).mono fun _ _ _ =>
          .pure ⟨_, _, _, rfl⟩)) ((each_takeModerationSync chan' m).bind fun _ => trivial) hkeys

/-- **The node that serves** fails before the keys. -/
theorem keeps_server (hU : Set.InjOn blake3 U) (hbars : Bars chan key U R d)
    (hkey : requester = key ∨ ∀ identity, loadIdentity d = .ok identity →
      identity.publicKey = key) (hkeys : KeyringIs chan keyring d) :
    Responder.conduct.Keeps (ServerAt d (KeyringIs chan keyring)) (Asks chan requester R)
      BeforeKeys := by
  rintro w d i ambient ⟨⟨challenge, rfl⟩, rfl⟩ - hi
  have hpost : SoloPost BeforeKeys (fun _ _ => False)
      (Responder.resume (.status challenge) (arrival i, ambient)) d :=
    Responder.post_resume hU hbars hkey hi
  obtain ⟨e, he⟩ := hpost.exists_error
  have hkeeps := solo_keeps (each_resume_status challenge (arrival i, ambient))
    (fun _ _ _ hx => hx) hkeys
  have hat : ServerAt d (KeyringIs chan keyring)
      ((Responder.resume (.status challenge) (arrival i, ambient)).solo d).2.1
      ((Responder.resume (.status challenge) (arrival i, ambient)).solo d).2.2 := by
    rw [he]
    exact hkeeps
  exact ⟨hat, hpost.1⟩

/-! ### How they start -/

/-- The history in a node's file, if it can be read. -/
def historyOf (chan : ChannelRef) (d : Datadir) : List PolicyEvent :=
  (readPolicyHistory chan d).toOption.getD []

/-- The history that is read, or none. -/
theorem historyOf_eq (chan : ChannelRef) (d : Datadir) :
    readPolicyHistory chan d = .ok (historyOf chan d) ∨ historyOf chan d = [] := by
  rw [historyOf]
  cases readPolicyHistory chan d with
  | error e => exact .inr rfl
  | ok P => exact .inl rfl

/-- The key that a node asks under, if it has one. -/
def requesterOf (d : Datadir) : String :=
  ((loadIdentity d).toOption.map KeypairFile.publicKey).getD ""

/-- Reading the index is no change to the policy file or the identity. -/
theorem keeps_chunkSummaries (chan : ChannelRef) (d₀ : Datadir) :
    Op.Keeps (fun d => readPolicyHistory chan d = readPolicyHistory chan d₀ ∧
      loadIdentity d = loadIdentity d₀) (chunkSummaries chan) := by
  refine .query_bind fun d ⟨dir, log⟩ hd hopen => ?_
  rw [Op.exec_except_bind]
  cases ensureIndex log dir.index with
  | error e => exact hd
  | ok db =>
    have hdir := (openLog_ok.1 hopen).1
    simp only
    rw [Op.exec_bind_of_ok (exec_modifyDir hdir), Op.exec_except]
    refine ⟨?_, hd.2⟩
    rw [readPolicyHistory_of_getElem? (getElem?_put_self _ _ _), ← hd.1,
      readPolicyHistory_of_getElem? hdir]
    rfl

/-- A node that asks has read its history, and its identity. -/
theorem post_start (ts : Int64) : SoloPost (fun _ => False)
    (fun a _ => ∃ chunks M identity, a = .challenge chan chunks (historyOf chan d) M identity ts ∧
      identity.publicKey = requesterOf d) (Initiator.start chan.fullName ts) d := by
  refine .bind (.except fun chan' hparse => .bind (.call fun chunks t hexec => ?_))
  rw [ChannelRef.parse_fullName] at hparse
  cases hparse
  obtain ⟨hhistory, hidentity⟩ := keeps_chunkSummaries chan d d ⟨rfl, rfl⟩
  rw [hexec] at hhistory hidentity
  refine post_ask_bind fun P hP => post_ask_bind fun M _ => post_ask_bind fun identity hload =>
    .pure ⟨chunks, M, identity, ?_, ?_⟩
  · rw [historyOf, ← hhistory, hP]
    rfl
  · rw [requesterOf, ← hidentity, context_eq_ok.1 hload]
    rfl

/-- A client that starts has read its history. -/
theorem callerAt_start (hkeys : KeyringIs chan keyring d) (ts : Int64) :
    CallerAt chan (requesterOf d) (historyOf chan d) (KeyringIs chan keyring)
      ((Initiator.start chan.fullName ts).solo d).2.1
      ((Initiator.start chan.fullName ts).solo d).2.2 := by
  have heach : (Initiator.start chan.fullName ts).Each (KeepsKeyring chan keyring) :=
    (each_except _).bind fun _ => (each_call (keepsKeyring_op .chunkSummaries rfl
      (by simp [StoreOp.parts]))).bind fun _ => (each_call (keepsKeyring_query _)).bind fun _ =>
        (each_call (keepsKeyring_query _)).bind fun _ =>
          (each_call (keepsKeyring_query _)).bind fun _ => trivial
  have hkeeps := solo_keeps heach (fun _ _ _ hx => hx) hkeys
  rcases hr : ((Initiator.start chan.fullName ts).solo d).2.1 with e | a
  · exact hkeeps
  · obtain ⟨chunks, M, identity, rfl, hidentity⟩ := (post_start ts).2 a hr
    exact ⟨rfl, rfl, hidentity, hkeeps⟩

/-- A node that serves poses its challenge. -/
theorem post_start_server (identity : KeypairFile) (random : Bytes) (now : Int64) :
    SoloPost BeforeKeys (fun a t => (∃ challenge, a = .status challenge) ∧ t = d)
      (Responder.start identity random now) d :=
  .bind (.except fun _ _ => .bind (.emit (.challenge _) (.pure ⟨⟨_, rfl⟩, rfl⟩)))

/-- A server that starts has touched nothing. -/
theorem serverAt_start (hK : K d) (identity : KeypairFile) (random : Bytes) (now : Int64) :
    ServerAt d K ((Responder.start identity random now).solo d).2.1
      ((Responder.start identity random now).solo d).2.2 := by
  have heach : (Responder.start identity random now).Each
      fun β _ x => Op.Keeps K (x : StoreM β) := (each_except _).bind fun _ => trivial
  have hkeeps := solo_keeps heach (fun _ _ _ hx => hx) hK
  rcases hr : ((Responder.start identity random now).solo d).2.1 with e | a
  · exact hkeeps
  · exact (post_start_server identity random now).2 a hr

omit [Primitives] in
/-- Wherever the client is, it has kept what it was to keep. -/
theorem CallerAt.kept {r : Except Error Initiator.Await} (h : CallerAt chan requester R K r d) :
    K d := by
  rcases r with e | a
  · exact h
  · cases a with
    | challenge => exact h.2.2.2
    | frames => exact h
    | done => exact h

omit [Primitives] in
/-- Wherever the server is, it has kept what it was to keep. -/
theorem ServerAt.kept {r : Except Error Responder.Await} (hK : K d) (h : ServerAt d K r d') :
    K d' := by
  rcases r with e | a
  · exact h
  · obtain ⟨-, rfl⟩ := h
    exact hK

/-- **Both keyrings stay** in a session in which the one that is shut out
asks or serves. -/
theorem admitted_inSession (hU : Set.InjOn blake3 U)
    (hbars : Bars chan key U (historyOf chan d) d')
    (hkey : requesterOf d = key ∨ ∀ identity, loadIdentity d' = .ok identity →
      identity.publicKey = key) {keyring' : JsonFile (List ChannelKey)}
    (hkeys : KeyringIs chan keyring d) (hkeys' : KeyringIs chan keyring' d')
    {s : Dialogue.Both Datadir Error Frame Initiator.Await Responder.Await}
    (hs : InSession chan.fullName d d' s) :
    KeyringIs chan keyring s.1.state ∧ KeyringIs chan keyring' s.2.state := by
  obtain ⟨ts, identity, random, now, whos, -, hrun⟩ := hs
  have hsilent : ∀ m ∈ ((Initiator.start chan.fullName ts).solo d).1,
      Asks chan (requesterOf d) (historyOf chan d) m := fun m hm => ((post_start ts).1 m hm).elim
  obtain ⟨hcaller, hserver⟩ := Dialogue.keeps_run keeps_caller (keeps_server hU hbars hkey hkeys')
    hrun (Dialogue.admitted_start (callerAt_start hkeys ts) hsilent
      (serverAt_start hkeys' identity random now) (post_start_server identity random now).1)
  exact ⟨hcaller.stands.kept, hserver.stands.kept hkeys'⟩

end Session

/-! ## After the transfer -/

section Handover

variable {signer : KeypairFile} {newOwner : String} {raw : Bytes} {dN e e' : Datadir}
  {U : Set Bytes}

/-- The owner of a private channel, who has no other role there, has
transferred it. -/
structure HandedOver (chan : ChannelRef) (signer : KeypairFile) (newOwner : String) (raw : Bytes)
    (d d' : Datadir) : Prop where
  identity : loadIdentity d = .ok signer
  owned : ∃ policy, readChannelPolicy chan d = .ok policy ∧ policy.visibility = .private_ ∧
    policy.owner = some signer.publicKey ∧ ∀ role, ¬ HasRole policy role signer.publicKey
  done : ∃ now now' after,
    (transferOwnership chan signer newOwner raw now now').exec d = (.ok after, d')

/-- There is a session between the two nodes, whichever asks, after which
the second has the key. -/
def Delivered (chan : ChannelRef) (k : ChannelKey) (d d' : Datadir) : Prop :=
  ∃ e e', Meets chan.fullName d d' e e' ∧ InKeyring chan k e'

/-- **No session changes the other node's keyring.** -/
theorem keyring_after_handover (h : HandedOver chan signer newOwner raw d d')
    (hother : newOwner ≠ signer.publicKey) (hclosed : PolicyClosed chan d)
    (hclosed' : PolicyClosed chan dN) (hU : Set.InjOn blake3 U)
    (hdU : ∀ P, readPolicyHistory chan d' = .ok P → policyPayloads P ⊆ U)
    (hdNU : ∀ Q, readPolicyHistory chan dN = .ok Q → policyPayloads Q ⊆ U)
    (hout : ∀ P Q, readPolicyHistory chan d' = .ok P → readPolicyHistory chan dN = .ok Q →
      idPrefix PolicyEvent.id P Q = true → ShutOut chan signer.publicKey Q)
    {keyring : JsonFile (List ChannelKey)} (hkeys : KeyringIs chan keyring dN)
    (hmeets : Meets chan.fullName d' dN e e') : KeyringIs chan keyring e' := by
  obtain ⟨policy, hpolicy, hprivate, -, hnone⟩ := h.owned
  obtain ⟨now, now', after, hdone⟩ := h.done
  obtain ⟨P, hP⟩ := transferred hclosed hpolicy hprivate hnone hother hdone
  obtain ⟨after, hafter, hshut⟩ := hP.shut
  have hPshut : ShutOut chan signer.publicKey P := fun p hp => by
    obtain rfl := Except.ok.inj (hafter.symm.trans hp)
    exact hshut
  have hidentity : loadIdentity d' = .ok signer := (loadIdentity_congr hP.identity).trans h.identity
  obtain ⟨keyring', hkeys'⟩ := exists_keyringIs chan d'
  cases hmeets with
  | asks hs =>
    -- the new owner serves: it takes in the transfer, and refuses
    have hhistory : historyOf chan d' = P := by rw [historyOf, hP.history]; rfl
    have hasks : requesterOf d' = signer.publicKey := by rw [requesterOf, hidentity]; rfl
    have hbars : Bars chan signer.publicKey U (historyOf chan d') dN := by
      rw [hhistory]
      exact ⟨hclosed', hdU P hP.history, fun Q hQ => ⟨hdNU Q hQ, .inr hP.nonempty,
        hout P Q hP.history hQ, fun _ => hPshut⟩⟩
    exact (admitted_inSession hU hbars (.inl hasks) hkeys' hkeys hs).2
  | serves hs =>
    -- the former owner serves: it may not
    have hserves : ∀ identity, loadIdentity d' = .ok identity →
        identity.publicKey = signer.publicKey := fun identity hload => by
      rw [Except.ok.inj (hload.symm.trans hidentity)]
    have hbars : Bars chan signer.publicKey U (historyOf chan dN) d' := by
      refine ⟨hP.closed, ?_, fun L hL => ?_⟩
      · rcases historyOf_eq chan dN with hQ | hnil
        · exact hdNU _ hQ
        · rw [hnil]
          rintro b ⟨e, he, -⟩
          cases he
      · obtain rfl := Except.ok.inj (hP.history.symm.trans hL)
        refine ⟨hdU _ hL, .inl hP.nonempty, fun _ => hPshut, fun hpre => ?_⟩
        rcases historyOf_eq chan dN with hQ | hnil
        · exact hout _ _ hL hQ hpre
        · rw [hnil, idPrefix_iff, List.take_nil, List.map_nil, List.map_eq_nil_iff] at hpre
          exact absurd hpre hP.nonempty
    exact (admitted_inSession hU hbars (.inr hserves) hkeys hkeys' hs).1

/-- **The key that a transfer makes reaches nobody.** Unless the new
owner's history goes on from the transfer and takes the former owner back,
there is a session after which its keyring has the key exactly if it had
the key before. -/
theorem transferred_key_delivered_iff (h : HandedOver chan signer newOwner raw d d')
    (hother : newOwner ≠ signer.publicKey) (hclosed : PolicyClosed chan d)
    (hclosed' : PolicyClosed chan dN) (hU : Set.InjOn blake3 U)
    (hdU : ∀ P, readPolicyHistory chan d' = .ok P → policyPayloads P ⊆ U)
    (hdNU : ∀ Q, readPolicyHistory chan dN = .ok Q → policyPayloads Q ⊆ U)
    (hout : ∀ P Q, readPolicyHistory chan d' = .ok P → readPolicyHistory chan dN = .ok Q →
      idPrefix PolicyEvent.id P Q = true → ShutOut chan signer.publicKey Q) :
    Delivered chan (.ofRaw raw) d' dN ↔ InKeyring chan (.ofRaw raw) dN := by
  obtain ⟨keyring, hkeys⟩ := exists_keyringIs chan dN
  constructor
  · rintro ⟨e, e', hmeets, hkey⟩
    have hkeys' := keyring_after_handover h hother hclosed hclosed' hU hdU hdNU hout hkeys hmeets
    exact (inKeyring_congr hkeys hkeys').1 hkey
  · intro hkey
    obtain ⟨policy, hpolicy, hprivate, -, hnone⟩ := h.owned
    obtain ⟨now, now', after, hdone⟩ := h.done
    obtain ⟨P, hP⟩ := transferred hclosed hpolicy hprivate hnone hother hdone
    -- the new owner asks, and has the key from the start
    have hstart := callerAt_start hkeys 0
    refine ⟨_, _, .serves ⟨0, signer, [], 0, [], ?_, .nil _⟩, ?_⟩
    · exact (loadIdentity_congr hP.identity).trans h.identity
    · exact (inKeyring_congr hkeys hstart.kept).2 hkey

end Handover

end Transfer

/-! ### A channel that changes hands -/

section Sold

open Simulated

attribute [local instance] simulated

/-- A private channel of the first identity, which the second reads. -/
def ownPolicy : ChannelPolicy where
  version := 1
  mode := .restricted
  visibility := .private_
  owner := some (identity 1).publicKey
  moderators := []
  writers := []
  readers := [(identity 2).publicKey]

/-- The policy once the second owns it. -/
def soldPolicy : ChannelPolicy :=
  { ownPolicy with owner := some (identity 2).publicKey, readers := [] }

/-- The history that both nodes have. -/
def ownSteps : List (UInt8 × PolicyAction) := [(1, .adopt ownPolicy)]

/-- The actions of the first owner, the transfer last. -/
def soldSteps : List (UInt8 × PolicyAction) :=
  [(1, .adopt ownPolicy), (1, .transferOwner (identity 2).publicKey)]

/-- The channel of the first owner. -/
theorem derivePolicy_ownSteps :
    derivePolicy general (policyChain general none ownSteps) = .ok ownPolicy :=
  derivePolicy_policyChain general ownSteps (by decide +kernel)

/-- And of the second, once it is handed over. -/
theorem derivePolicy_soldSteps :
    derivePolicy general (policyChain general none soldSteps) = .ok soldPolicy :=
  derivePolicy_policyChain general soldSteps (by decide +kernel)

/-- The event of the transfer. -/
def soldEvent : PolicyEvent :=
  policyEvent general 1 0 ((policyChain general none ownSteps).getLast?.map PolicyEvent.id)
    (.transferOwner (identity 2).publicKey)

/-- The transfer is one event more. -/
theorem policyChain_soldSteps :
    policyChain general none soldSteps = policyChain general none ownSteps ++ [soldEvent] := rfl

/-- A node of that identity, with the history and no keys. -/
noncomputable def historyHolder (n : UInt8) : Datadir :=
  ({ identity := .value (identity n) } : Datadir).put general.fullName
    (historyDir (policyChain general none ownSteps) [])

variable {n : UInt8}

/-- Both nodes have the history of before. -/
theorem readPolicyHistory_historyHolder : readPolicyHistory general (historyHolder n) =
    .ok (policyChain general none ownSteps) :=
  readPolicyHistory_ok.2
    ⟨_, getElem?_put_self _ _ _, readPolicyLog_records rfl derivePolicy_ownSteps⟩

/-- Under which the first still owns. -/
theorem readChannelPolicy_historyHolder :
    readChannelPolicy general (historyHolder n) = .ok ownPolicy := by
  rw [readChannelPolicy_of_history readPolicyHistory_historyHolder (List.cons_ne_nil _ _)]
  exact derivePolicy_ownSteps

/-- The last line of the policy history is closed. -/
theorem policyClosed_historyHolder : PolicyClosed general (historyHolder n) := by
  intro dir hdir
  rw [historyHolder, getElem?_put_self] at hdir
  cases hdir
  exact policyCodec.terminated_records _

/-- The two owners are two. -/
theorem publicKey_one_ne_two : (identity 1).publicKey ≠ (identity 2).publicKey := by
  rw [ne_eq, identity, identity, hexEncode_inj]
  decide

/-- The first has no role beside owning. -/
theorem no_other_role (role : PolicyRole) : ¬ HasRole ownPolicy role (identity 1).publicKey := by
  intro h
  cases role with
  | reader => exact publicKey_one_ne_two (List.mem_singleton.1 h)
  | moderator => cases h
  | writer => cases h

/-- The first node hands the channel to the second. -/
theorem exists_handedOver (raw : Bytes) : ∃ d',
    HandedOver general (identity 1) (identity 2).publicKey raw (historyHolder 1) d' ∧
      readPolicyHistory general d' = .ok (policyChain general none soldSteps) := by
  have hdir : (historyHolder 1).channels[general.fullName]? =
      some (historyDir (policyChain general none ownSteps) []) := getElem?_put_self _ _ _
  have hload : loadKeys general.fullName (historyHolder 1) = .ok [] := by
    rw [loadKeys, hdir]
    rfl
  have hgenerate : (generateChannelKey general.fullName raw).exec (historyHolder 1) = _ :=
    exec_generateChannelKey hdir hload
  set dir : Dir := { historyDir (policyChain general none ownSteps) [] with
    channelKeys := .value ([].filter (·.id != (ChannelKey.ofRaw raw).id) ++ [.ofRaw raw]) }
    with hdirdef
  have hlog : readPolicyLog general dir = .ok (policyChain general none ownSteps) :=
    readPolicyLog_records rfl derivePolicy_ownSteps
  have hadded : newPolicyEvents general (identity 1) 0 0 (.transferOwner (identity 2).publicKey)
      (policyChain general none ownSteps) ownPolicy = .ok [soldEvent] := by
    rw [newPolicyEvents, if_neg (by rintro ⟨hempty, -⟩; cases hempty), signPolicyEvent_identity]
    rfl
  have hderive : derivePolicy general (policyChain general none ownSteps ++ [soldEvent]) =
      .ok soldPolicy := by
    rw [← policyChain_soldSteps]
    exact derivePolicy_soldSteps
  have happend := exec_appendPolicyAction_ok.2 ⟨dir, [], _, ownPolicy, [soldEvent],
    openLog_ok.2 ⟨getElem?_put_self (historyHolder 1) _ dir, rfl⟩, hlog, derivePolicy_ownSteps,
    hadded, hderive, rfl⟩
  have hdone := (exec_transferOwnership_ok readChannelPolicy_historyHolder rfl).2
    ⟨validatePublicKey_identity 2, rfl, _, _, hgenerate, happend⟩
  refine ⟨_, ⟨rfl, ⟨ownPolicy, readChannelPolicy_historyHolder, rfl, rfl, no_other_role⟩,
    0, 0, soldPolicy, hdone⟩, ?_⟩
  rw [policyChain_soldSteps]
  refine readPolicyHistory_appended ?_ (getElem?_put_self _ _ _) hlog hderive soldPolicy
  intro dir' hdir'
  rw [getElem?_put_self] at hdir'
  cases hdir'
  exact policyCodec.terminated_records _

/-- The texts that are hashed there. -/
def soldPayloads : Set Bytes :=
  {(policyEvent general 1 0 none (.adopt ownPolicy)).payload.compact, soldEvent.payload.compact}

/-- What the two histories hash has different hashes. -/
theorem injOn_soldPayloads : Set.InjOn blake3 soldPayloads := by
  have hne : blake3 (policyEvent general 1 0 none (.adopt ownPolicy)).payload.compact ≠
      blake3 soldEvent.payload.compact := by
    decide +kernel
  exact Set.injOn_pair.2 fun h => absurd h hne

/-- The later history is among it. -/
theorem payloads_soldSteps :
    policyPayloads (policyChain general none soldSteps) ⊆ soldPayloads := by
  rintro b ⟨e, he, rfl⟩
  rw [policyChain_soldSteps] at he
  rcases List.mem_append.1 he with he | he
  · rw [List.mem_singleton.1 he]
    exact .inl rfl
  · rw [List.mem_singleton.1 he]
    exact .inr rfl

/-- The earlier history is among it. -/
theorem payloads_ownSteps :
    policyPayloads (policyChain general none ownSteps) ⊆ soldPayloads := by
  rintro b ⟨e, he, rfl⟩
  rw [List.mem_singleton.1 he]
  exact .inl rfl

/-- What the two hold is among those texts, and the new owner's history
does not go on from the transfer. -/
theorem histories_sold {d' : Datadir}
    (hd' : readPolicyHistory general d' = .ok (policyChain general none soldSteps)) :
    (∀ P, readPolicyHistory general d' = .ok P → policyPayloads P ⊆ soldPayloads) ∧
      (∀ Q, readPolicyHistory general (historyHolder 2) = .ok Q →
        policyPayloads Q ⊆ soldPayloads) ∧
      ∀ P Q, readPolicyHistory general d' = .ok P →
        readPolicyHistory general (historyHolder 2) = .ok Q →
        idPrefix PolicyEvent.id P Q = true → ShutOut general (identity 1).publicKey Q := by
  refine ⟨fun P hP => ?_, fun Q hQ => ?_, fun P Q hP hQ hpre => ?_⟩
  · rw [← Except.ok.inj (hd'.symm.trans hP)]
    exact payloads_soldSteps
  · rw [← Except.ok.inj (readPolicyHistory_historyHolder.symm.trans hQ)]
    exact payloads_ownSteps
  · rw [← Except.ok.inj (hd'.symm.trans hP),
      ← Except.ok.inj (readPolicyHistory_historyHolder.symm.trans hQ), idPrefix,
      Bool.and_eq_true, decide_eq_true_eq] at hpre
    exact absurd hpre.1 (by decide)

/-- 32 random bytes. -/
def soldRaw : Bytes := List.replicate 32 7

/-- **The new owner never gets the key.** The first node hands a private
channel to the second, which reads it and has the same history; the first
then has the new key, and no session between the two brings it to the
second. -/
theorem sold_key_undelivered : ∃ d',
    HandedOver general (identity 1) (identity 2).publicKey soldRaw (historyHolder 1) d' ∧
      InKeyring general (.ofRaw soldRaw) d' ∧
      loadIdentity (historyHolder 2) = .ok (identity 2) ∧
      ¬ Delivered general (.ofRaw soldRaw) d' (historyHolder 2) := by
  obtain ⟨d', h, hd'⟩ := exists_handedOver soldRaw
  obtain ⟨hdU, hdNU, hout⟩ := histories_sold hd'
  obtain ⟨policy, hpolicy, hprivate, -, hnone⟩ := h.owned
  obtain ⟨now, now', after, hdone⟩ := h.done
  obtain ⟨P, hP⟩ :=
    transferred policyClosed_historyHolder hpolicy hprivate hnone publicKey_one_ne_two.symm hdone
  refine ⟨d', h, hP.key, rfl, ?_⟩
  rintro ⟨e, e', hmeets, hkey⟩
  have hkeys : KeyringIs general .absent (historyHolder 2) := by
    rw [KeyringIs, DirIs, historyHolder, getElem?_put_self]
    rfl
  have hkeys' := keyring_after_handover h publicKey_one_ne_two.symm policyClosed_historyHolder
    policyClosed_historyHolder injOn_soldPayloads hdU hdNU hout hkeys hmeets
  obtain ⟨keys, hload, hmem⟩ := hkey
  rw [loadKeys_of_keyringIs hkeys'] at hload
  cases hload
  cases hmem

/-- The law for that transfer. -/
theorem transferred_key_delivered_iff_sold : ∃ d',
    HandedOver general (identity 1) (identity 2).publicKey soldRaw (historyHolder 1) d' ∧
      (Delivered general (.ofRaw soldRaw) d' (historyHolder 2) ↔
        InKeyring general (.ofRaw soldRaw) (historyHolder 2)) := by
  obtain ⟨d', h, hd'⟩ := exists_handedOver soldRaw
  obtain ⟨hdU, hdNU, hout⟩ := histories_sold hd'
  exact ⟨d', h, transferred_key_delivered_iff h publicKey_one_ne_two.symm
    policyClosed_historyHolder policyClosed_historyHolder injOn_soldPayloads hdU hdNU hout⟩

end Sold

end Embernet
