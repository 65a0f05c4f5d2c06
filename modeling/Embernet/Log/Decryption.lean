import Embernet.Keys.Delivery
import Embernet.Log.Tail
import Embernet.Store.Readable
/-!
# Decryption — a tail, read by one node

A tail is decrypted as a whole. An append looks at no body, so any allowed
author may enter one that does not open here; and from then on every tail
that shows it is an error, whatever else it shows.
-/

set_option autoImplicit false

namespace Embernet

open Primitives

section Decryption

variable [Primitives] {chan : ChannelRef} {d d' d₀ : Datadir} {records envs : List Envelope}
  {env plain : Envelope} {n : ℕ} {includeTombstoned : Bool} {ops : List StoreOp}

/-- A body in the clear, or one whose key the node has and which opens
under it, to a text. -/
def Opens (d : Datadir) (env : Envelope) : Prop :=
  ∀ keyId nonce ciphertext, env.msg.body = .encrypted keyId nonce ciphertext →
    ∃ keys key rawKey nonce' ciphertext' plaintext text, loadKeys env.channel d = .ok keys ∧
      keys.find? (·.id == keyId) = some key ∧ decodeKey key = .ok rawKey ∧
      base64Decode nonce = some nonce' ∧ nonce'.length = 24 ∧
      base64Decode ciphertext = some ciphertext' ∧
      decrypt rawKey nonce' ciphertext' (messageAad env.channel keyId) = some plaintext ∧
      fromUtf8 plaintext = some text

/-- **What decrypts is what opens.** -/
theorem exists_decryptEnvelope_iff :
    (∃ plain, decryptEnvelope env d = .ok plain) ↔ Opens d env := by
  rw [Opens, decryptEnvelope]
  cases hbody : env.msg.body with
  | text text =>
    constructor
    · rintro - keyId nonce ciphertext h
      cases h
    · exact fun _ => ⟨env, rfl⟩
  | encrypted keyId nonce ciphertext =>
    simp only [Query.bind_ok, Query.orBail_apply, Query.bailIf_apply, Query.lift_apply,
      orBail_eq_ok, bailIf_eq_ok, not_not, Query.pure_apply]
    constructor
    · rintro ⟨_, keys, hkeys, key, hkey, raw, hraw, nonce', hnonce, -, hlength, ciphertext', hct,
        plaintext, hplain, text, htext, -⟩ _ _ _ heq
      cases heq
      exact ⟨keys, key, raw, nonce', ciphertext', plaintext, text, hkeys, hkey, hraw, hnonce,
        hlength, hct, hplain, htext⟩
    · intro h
      obtain ⟨keys, key, raw, nonce', ciphertext', plaintext, text, hkeys, hkey, hraw, hnonce,
        hlength, hct, hplain, htext⟩ := h _ _ _ rfl
      exact ⟨_, keys, hkeys, key, hkey, raw, hraw, nonce', hnonce, (), hlength, ciphertext', hct,
        plaintext, hplain, text, htext, rfl⟩

/-- The tail is read in the clear: one entry for each envelope, in their
order, and those that decrypt decrypted. -/
def ReadsInClear (chan : ChannelRef) (n : ℕ) (includeTombstoned : Bool) (d : Datadir) : Prop :=
  ∀ envs d', (readChannelTail chan n includeTombstoned).exec d = (.ok envs, d') →
    ∃ entries d'', (readChannelTailDecrypted chan n includeTombstoned).exec d = (.ok entries, d'') ∧
      List.Forall₂ (fun env entry => decryptEnvelope env d' = .ok entry ∨
        ¬ Opens d' env ∧ entry.id = env.id) envs entries

/-- A record that the tail shows: one of the last that the moderation does
not hide. -/
def Shown (chan : ChannelRef) (n : ℕ) (includeTombstoned : Bool) (d : Datadir)
    (records : List Envelope) (env : Envelope) : Prop :=
  ∃ state, (includeTombstoned = false → moderationState chan d = .ok state) ∧
    env ∈ lastVisible (fun id => !includeTombstoned && state.tombstoned.contains id) n records

theorem readsInClear_of_exec
    (hexec : (readChannelTail chan n includeTombstoned).exec d = (.ok envs, d')) :
    ReadsInClear chan n includeTombstoned d ↔ ∀ env ∈ envs, Opens d' env := by
  have hdecrypted : (readChannelTailDecrypted chan n includeTombstoned).exec d =
      (envs.mapM fun env => decryptEnvelope env d', d') := by
    rw [readChannelTailDecrypted, Op.exec_bind_of_ok hexec, Op.exec_query, Query.mapM_apply]
  simp only [← exists_decryptEnvelope_iff, ← exists_mapM_ok_iff]
  constructor
  · intro h
    obtain ⟨entries, d'', hentries, -⟩ := h envs d' hexec
    rw [hdecrypted, Prod.mk.injEq] at hentries
    exact ⟨entries, hentries.1⟩
  · rintro ⟨entries, hentries⟩ envs' d'' hexec'
    cases hexec.symm.trans hexec'
    refine ⟨entries, d', by rw [hdecrypted, hentries], ?_⟩
    exact (mapM_ok_iff.1 hentries).imp fun _ _ h => .inl h

/-- With the tombstoned records, no moderation is read. -/
theorem exec_readChannelTail_all (hn : n ≠ 0) :
    (Embernet.readChannelTail chan n true).exec d =
      (readIndexed chan (tailOf chan (fun _ => false) n)).exec d := by
  rw [Embernet.readChannelTail, if_neg hn, if_pos rfl]
  rfl

/-- **What a tail shows**, where it is read: the last records that the
moderation does not hide, to a node whose keys are what they were. -/
theorem Orderly.readChannelTail (h : Orderly chan d records) (n : ℕ) (includeTombstoned : Bool) :
    (∃ e d', (Embernet.readChannelTail chan n includeTombstoned).exec d = (.error e, d') ∧
        ∀ env, ¬ Shown chan n includeTombstoned d records env) ∨
      ∃ envs d', (Embernet.readChannelTail chan n includeTombstoned).exec d = (.ok envs, d') ∧
        (∀ env, env ∈ envs ↔ Shown chan n includeTombstoned d records env) ∧
        loadKeys chan.fullName d' = loadKeys chan.fullName d := by
  by_cases hn : n = 0
  · subst hn
    refine .inr ⟨[], d, rfl, fun env => ?_, rfl⟩
    simp [Shown, lastVisible]
  by_cases hstate : ∃ state, includeTombstoned = false → moderationState chan d = .ok state
  swap
  · -- the moderation does not read
    have hfalse : includeTombstoned = false := by
      cases includeTombstoned with
      | false => rfl
      | true => exact absurd ⟨{}, by rintro ⟨⟩⟩ hstate
    subst hfalse
    refine .inl ?_
    rw [Embernet.readChannelTail, if_neg hn]
    simp only [Bool.false_eq_true, if_false]
    rw [Op.exec_query_bind]
    cases hmoderation : moderationState chan d with
    | ok state => exact absurd ⟨state, fun _ => hmoderation⟩ hstate
    | error e =>
      refine ⟨e, d, rfl, ?_⟩
      rintro env ⟨state, hread, -⟩
      exact hstate ⟨state, hread⟩
  obtain ⟨state, hstate⟩ := hstate
  set hidden : String → Bool := fun id => !includeTombstoned && state.tombstoned.contains id
    with hhidden
  have hexec : (Embernet.readChannelTail chan n includeTombstoned).exec d =
      (readIndexed chan (tailOf chan hidden n)).exec d := by
    cases includeTombstoned with
    | false => exact exec_readChannelTail (hstate rfl) hn
    | true => exact exec_readChannelTail_all hn
  have hshown (env : Envelope) :
      Shown chan n includeTombstoned d records env ↔ env ∈ lastVisible hidden n records := by
    constructor
    · rintro ⟨state', hstate', hmem⟩
      cases includeTombstoned with
      | false =>
        obtain rfl : state' = state := Except.ok.inj ((hstate' rfl).symm.trans (hstate rfl))
        exact hmem
      | true => exact hmem
    · exact fun hmem => ⟨state, hstate, hmem⟩
  rw [hexec]
  cases hopen : openLog chan d with
  | error e =>
    refine .inl ⟨e, d, ?_, fun env => ?_⟩
    · rw [readIndexed, Op.exec_query_bind, hopen]
    · rw [hshown, h.records_of_openLog hopen]
      simp [lastVisible]
  | ok opened =>
    obtain ⟨dir, log⟩ := opened
    obtain ⟨scanned, htail⟩ := h.tail hopen hidden n
    refine .inr ⟨_, _, htail, fun env => (hshown env).symm, ?_⟩
    rw [loadKeys, getElem?_put_self, loadKeys, (openLog_ok.1 hopen).1]
    rfl

/-- A channel with another keyring. -/
def Datadir.withKeyring (d : Datadir) (channel : String) (file : JsonFile (List ChannelKey)) :
    Datadir :=
  match d.channels[channel]? with
  | none => d
  | some dir => d.put channel { dir with channelKeys := file }

theorem Orderly.withKeyring (h : Orderly chan d records) (file : JsonFile (List ChannelKey)) :
    Orderly chan (d.withKeyring chan.fullName file) records := by
  obtain ⟨dir, hdir, hrecords⟩ := h.dir
  rw [Datadir.withKeyring, hdir]
  exact ⟨⟨_, getElem?_put_self _ _ _, hrecords.log, hrecords.indexed⟩, h.channel⟩

/-- **A tail is read in the clear exactly if all it shows opens.** Whatever
was appended, under whatever policy, and whatever the keyring and the
moderation are: the records the tail shows are decrypted, one by one and in
their order, exactly if each is in the clear, or is sealed with a key the
node has and opens under it to a text. -/
theorem tail_in_clear_iff (hrun : Run (StoreStep chan) d₀ ops d) (h₀ : EmptyChannel chan d₀)
    (file : JsonFile (List ChannelKey)) (n : ℕ) (includeTombstoned : Bool) :
    ∃ records, LogHolds chan (d.withKeyring chan.fullName file) records ∧
      (ReadsInClear chan n includeTombstoned (d.withKeyring chan.fullName file) ↔
        ∀ env, Shown chan n includeTombstoned (d.withKeyring chan.fullName file) records env →
          Opens (d.withKeyring chan.fullName file) env) := by
  obtain ⟨records, horderly⟩ := h₀.orderly.run hrun
  have h := horderly.withKeyring file
  refine ⟨_, h.logHolds, ?_⟩
  rcases h.readChannelTail n includeTombstoned with
    ⟨e, d', hexec, hnone⟩ | ⟨envs, d', hexec, hshown, hkeys⟩
  · constructor
    · exact fun _ env henv => absurd henv (hnone env)
    · intro _ envs d'' hexec'
      cases hexec.symm.trans hexec'
  · have hmember {env : Envelope} (henv : env ∈ envs) : env.channel = chan.fullName := by
      obtain ⟨state, -, hmem⟩ := (hshown env).1 henv
      refine h.channel env ?_
      rw [lastVisible, List.mem_reverse] at hmem
      exact (List.mem_filter.1 (List.mem_reverse.1 (List.mem_of_mem_take hmem))).1
    have hopens {env : Envelope} (henv : env ∈ envs) :
        Opens d' env ↔ Opens (d.withKeyring chan.fullName file) env := by
      rw [Opens, Opens, hmember henv, hkeys]
    rw [readsInClear_of_exec hexec]
    constructor
    · exact fun hall env henv => (hopens ((hshown env).2 henv)).1 (hall env ((hshown env).2 henv))
    · exact fun hall env henv => (hopens henv).2 (hall env ((hshown env).1 henv))

end Decryption

/-! ### A body that nobody opens -/

section Sealed

open Simulated

attribute [local instance] simulated

/-- The channel after a second append, behind a message in the clear. -/
noncomputable def behindDir (message : Message) : Dir :=
  greetedDir.appended [newRecord [] (envelope general 1 hello)] (envelope general 2 message)

/-- The node with the log of the message behind the greeting. -/
noncomputable def behindNode (message : Message) : Datadir :=
  greetedNode.put general.fullName (behindDir message)

section Behind

variable {message : Message} (hne : (envelope general 1 hello).id ≠ (envelope general 2 message).id)

include hne

theorem append_behind : (appendMessage general (envelope general 2 message)).exec greetedNode =
    (.ok (envelope general 2 message).id, behindNode message) := by
  have hnew : ¬ indexContains (indexOf [newRecord [] (envelope general 1 hello)] 0)
      (envelope general 2 message).id = true := by
    rw [indexContains_indexOf]
    rintro ⟨item, hitem, hid⟩
    rw [List.mem_singleton.1 hitem] at hid
    exact hne hid
  have hexec := appendMessage_exec_allowed (d := greetedNode) (getElem?_put_self _ _ _)
    logOk_greetedDir rfl (verify_envelope general 2 message) (authorizeAppend_greetedNode _)
  rwa [if_neg hnew] at hexec

theorem run_behindNode : Run (StoreStep general) newNode
    [.appendMessage (envelope general 1 hello), .appendMessage (envelope general 2 message)]
    (behindNode message) :=
  .snoc (.snoc (.nil _) (storeStep_appendMessage first_append))
    (storeStep_appendMessage (append_behind hne))

theorem orderly_behindNode : Orderly general (behindNode message)
    [envelope general 1 hello, envelope general 2 message] := by
  obtain ⟨records, horderly⟩ := emptyChannel_newNode.orderly.run (run_behindNode hne)
  have hlog : LogHolds general (behindNode message)
      [envelope general 1 hello, envelope general 2 message] := by
    refine ⟨behindDir message, getElem?_put_self _ _ _, ?_⟩
    simp [behindDir, greetedDir, newDir, Dir.appended, Ndjson.Codec.records]
  rwa [horderly.logHolds.unique hlog] at horderly

/-- Both are shown. -/
theorem exec_readChannelTail_behindNode : ∃ d',
    (readChannelTail general 2 true).exec (behindNode message) =
      (.ok [envelope general 1 hello, envelope general 2 message], d') := by
  have hopen : openLog general (behindNode message) =
      .ok (behindDir message, (greetedDir.log.getD []) ++
        envelopeCodec.record (envelope general 2 message)) :=
    openLog_ok.2 ⟨getElem?_put_self _ _ _, rfl⟩
  obtain ⟨scanned, htail⟩ := (orderly_behindNode hne).tail hopen (fun _ => false) 2
  rw [exec_readChannelTail_all (by omega), htail]
  exact ⟨_, rfl⟩

end Behind

/-- A message whose body names a key that there is not. -/
def sealedMessage : Message where
  ts := 0
  type := .post
  title := none
  tags := []
  refs := []
  body := .encrypted "no such key" "" ""

theorem id_sealedMessage_ne :
    (envelope general 1 hello).id ≠ (envelope general 2 sealedMessage).id := by
  change hexEncode _ ≠ hexEncode _
  rw [ne_eq, hexEncode_inj]
  decide +kernel

/-- It opens for nobody without a key of that name. -/
theorem not_opens_sealedMessage {d : Datadir} (hkeys : loadKeys general.fullName d = .ok []) :
    ¬ Opens d (envelope general 2 sealedMessage) := by
  intro h
  obtain ⟨keys, key, _, _, _, _, _, hload, hfind, -⟩ := h _ _ _ rfl
  cases hkeys.symm.trans hload
  cases hfind

/-- **One message blocks the tail**: behind it the message in the clear is
read no more. -/
theorem sealed_message_blocks_tail : ∃ d,
    EmptyChannel general newNode ∧
      Run (StoreStep general) newNode [.appendMessage (envelope general 1 hello),
        .appendMessage (envelope general 2 sealedMessage)] d ∧
      (∃ d', (readChannelTail general 2 true).exec d =
        (.ok [envelope general 1 hello, envelope general 2 sealedMessage], d')) ∧
      ¬ ReadsInClear general 2 true d := by
  obtain ⟨d', hexec⟩ := exec_readChannelTail_behindNode id_sealedMessage_ne
  refine ⟨_, emptyChannel_newNode, run_behindNode id_sealedMessage_ne, ⟨d', hexec⟩, ?_⟩
  rw [readsInClear_of_exec hexec]
  intro hall
  refine not_opens_sealedMessage ?_ (hall (envelope general 2 sealedMessage) (by simp))
  rcases (orderly_behindNode id_sealedMessage_ne).readChannelTail 2 true with
    ⟨e, d'', hexec', -⟩ | ⟨envs, d'', hexec', -, hkeys⟩
  · cases hexec.symm.trans hexec'
  · cases hexec.symm.trans hexec'
    rw [hkeys, loadKeys, behindNode, getElem?_put_self]
    rfl

/-- The greeting once more, sealed under a key. -/
noncomputable def sealedReply : Message := sealedUnder general.fullName (drawn 1) nonce "hello" hello

theorem id_sealedReply_ne : (envelope general 1 hello).id ≠ (envelope general 2 sealedReply).id := by
  change hexEncode _ ≠ hexEncode _
  rw [ne_eq, hexEncode_inj]
  decide +kernel

/-- The law for a node with that key, behind a message in the clear: both
are read. -/
theorem tail_in_clear_replied : ∃ d,
    Run (StoreStep general) newNode [.appendMessage (envelope general 1 hello),
      .appendMessage (envelope general 2 sealedReply)] d ∧
    LogHolds general (d.withKeyring general.fullName (.value [.ofRaw (drawn 1)]))
      [envelope general 1 hello, envelope general 2 sealedReply] ∧
    ReadsInClear general 2 true
      (d.withKeyring general.fullName (.value [.ofRaw (drawn 1)])) := by
  have hrun := run_behindNode id_sealedReply_ne
  have hholds := ((orderly_behindNode id_sealedReply_ne).withKeyring
    (.value [.ofRaw (drawn 1)])).logHolds
  obtain ⟨records, hlog, hiff⟩ :=
    tail_in_clear_iff hrun emptyChannel_newNode (.value [.ofRaw (drawn 1)]) 2 true
  refine ⟨_, hrun, hholds, hiff.2 ?_⟩
  rintro env ⟨state, -, hmem⟩
  rw [hlog.unique hholds] at hmem
  have henv : env = envelope general 1 hello ∨ env = envelope general 2 sealedReply := by
    simpa [lastVisible, or_comm] using hmem
  rcases henv with rfl | rfl
  · rintro keyId nonce ciphertext ⟨⟩
  · -- the second opens under the one key there is
    have hload : loadKeys general.fullName ((behindNode sealedReply).withKeyring general.fullName
        (.value [.ofRaw (drawn 1)])) = .ok [.ofRaw (drawn 1)] := by
      rw [Datadir.withKeyring, behindNode, getElem?_put_self]
      exact loadKeys_put
    exact exists_decryptEnvelope_iff.1 ⟨_, decryptEnvelope_sealedUnder hload (sound_drawn 1)
      (List.mem_singleton_self _) (by simp [drawn]) length_nonce rfl (rfl : hello.body = _) rfl⟩

end Sealed

end Embernet
