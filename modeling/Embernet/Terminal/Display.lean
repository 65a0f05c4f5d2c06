import Embernet.Keys.Delivery
import Embernet.Log.Tail
import Embernet.Store.Appending
import Embernet.Store.Readable
import Embernet.Terminal.Posting
/-!
# The MCP display — a channel as a client sees it

To its client a channel is a board: a list of messages in the clear, to
which a post adds one and of which a tail shows the last. `Board` is that
list, and `Displays` says that a node shows it, through the log, the index,
the moderation and the keyring. Each tool is described on the board here.
-/

set_option autoImplicit false

namespace Embernet

namespace Mcp

open Primitives Serde Proc

/-! ## The board -/

/-- The messages of a channel in the clear, which of them are hidden, and
whether the reader may post. -/
structure Board where
  messages : List Envelope
  hidden : String → Bool
  writable : Bool

namespace Board

/-- The last messages that are not hidden. -/
def view (b : Board) (n : ℕ) : List Envelope := lastVisible b.hidden n b.messages

/-- One message more, if its id is new. -/
def post (b : Board) (env : Envelope) : Board :=
  { b with messages := if env.id ∈ b.messages.map Envelope.id then b.messages
      else b.messages ++ [env] }

end Board

section Board

variable [Primitives] {chan other : ChannelRef} {me : KeypairFile} {d d' : Datadir} {dir dir' : Dir}
  {records : List Envelope} {keys : List ChannelKey} {b : Board} {supply : Supply}

/-! ## What the board stands for -/

/-- The policy lets the reader write, and where the channel is private
there is a key, or the reader is the owner and draws one. -/
def CanPost (chan : ChannelRef) (me : KeypairFile) (keys : List ChannelKey) (d : Datadir) : Prop :=
  ∃ policy, readChannelPolicy chan d = .ok policy ∧
    policyAllowsAppend policy me.publicKey = true ∧
    (policy.visibility = .private_ → keys = [] → policy.owner = some me.publicKey)

/-- A record of the channel and its entry on the board. -/
structure Entry (chan : ChannelRef) (d : Datadir) (hidden : String → Bool)
    (env plain : Envelope) : Prop where
  id : plain.id = env.id
  channel : env.channel = chan.fullName
  decrypts : hidden env.id = false → decryptEnvelope env d = .ok plain

/-- The node shows this board to its identity. -/
structure Displays (chan : ChannelRef) (me : KeypairFile) (d : Datadir) (records : List Envelope)
    (keys : List ChannelKey) (b : Board) : Prop where
  identity : Embernet.loadIdentity d = .ok me
  there : ∃ opened, openLog chan d = .ok opened
  orderly : Orderly chan d records
  keyring : loadKeys chan.fullName d = .ok keys
  sound : Sound keys
  moderation : ∃ state, moderationState chan d = .ok state ∧
    ∀ id, state.tombstoned.contains id = b.hidden id
  readable : authorizeRead chan me.publicKey d = .ok ()
  entries : List.Forall₂ (Entry chan d b.hidden) records b.messages
  writable : b.writable = true ↔ CanPost chan me keys d

/-- The files that a read of a channel depends on beside the log. -/
structure SameFiles (dir dir' : Dir) : Prop where
  policyLog : dir'.policyLog = dir.policyLog
  policyJson : dir'.policyJson = dir.policyJson
  moderationLog : dir'.moderationLog = dir.moderationLog

section Same

variable (hdir : d.channels[chan.fullName]? = some dir)
  (hdir' : d'.channels[chan.fullName]? = some dir') (hfiles : SameFiles dir dir')

include hdir hdir' hfiles

theorem readChannelPolicy_same : readChannelPolicy chan d' = readChannelPolicy chan d := by
  rw [readChannelPolicy_of_getElem? hdir', readChannelPolicy_of_getElem? hdir]
  exact readDirPolicy_congr hfiles.policyLog hfiles.policyJson

theorem moderationState_same : moderationState chan d' = moderationState chan d := by
  rw [moderationState, Query.bind_apply, Query.bind_apply,
    readModerationHistory_congr hdir hdir' hfiles.policyLog hfiles.moderationLog]
  simp only [deriveModeration_of_getElem? hdir, deriveModeration_of_getElem? hdir',
    readPolicyLog_congr hfiles.policyLog]

theorem authorizeRead_same (key : String) :
    authorizeRead chan key d' = authorizeRead chan key d := by
  simp only [authorizeRead, Query.bind_apply, Query.bailIf_apply,
    readChannelPolicy_same hdir hdir' hfiles]

end Same

/-! ## What leaves the board as it is -/

/-- Another log or index beside, or another keyring. -/
theorem Displays.of_files {records' : List Envelope} {keys' : List ChannelKey} {b' : Board}
    (h : Displays chan me d records keys b) (hidentity : d'.identity = d.identity)
    (hdir : d.channels[chan.fullName]? = some dir)
    (hdir' : d'.channels[chan.fullName]? = some dir') (hfiles : SameFiles dir dir')
    (hlog : dir'.log.isSome = true) (horderly : Orderly chan d' records')
    (hkeyring : loadKeys chan.fullName d' = .ok keys') (hsound : Sound keys')
    (hhidden : b'.hidden = b.hidden)
    (hentries : List.Forall₂ (Entry chan d' b.hidden) records' b'.messages)
    (hwritable : b'.writable = b.writable)
    (hpost : CanPost chan me keys' d ↔ CanPost chan me keys d) :
    Displays chan me d' records' keys' b' where
  identity := by
    have hload := h.identity
    unfold Embernet.loadIdentity at hload ⊢
    rwa [hidentity]
  there := by
    obtain ⟨log, hlog⟩ := Option.isSome_iff_exists.1 hlog
    exact ⟨_, openLog_ok.2 ⟨hdir', hlog⟩⟩
  orderly := horderly
  keyring := hkeyring
  sound := hsound
  moderation := by
    rw [moderationState_same hdir hdir' hfiles, hhidden]
    exact h.moderation
  readable := by
    rw [authorizeRead_same hdir hdir' hfiles]
    exact h.readable
  entries := by
    rw [hhidden]
    exact hentries
  writable := by
    rw [hwritable, h.writable, ← hpost]
    simp only [CanPost, readChannelPolicy_same hdir hdir' hfiles]

/-- The log is there. -/
theorem Displays.exists_dir (h : Displays chan me d records keys b) :
    ∃ dir log, d.channels[chan.fullName]? = some dir ∧ dir.log = some log := by
  obtain ⟨⟨dir, log⟩, hopen⟩ := h.there
  exact ⟨dir, log, openLog_ok.1 hopen⟩

theorem Displays.ensureChannelLogExists (h : Displays chan me d records keys b) :
    Mcp.ensureChannelLogExists chan d = .ok () := by
  obtain ⟨dir, log, hdir, hlog⟩ := h.exists_dir
  simp [Mcp.ensureChannelLogExists, hdir, hlog, bailIf]

theorem Displays.loadIdentity (h : Displays chan me d records keys b) :
    Mcp.loadIdentity d = .ok me := context_eq_ok.2 h.identity

variable {hidden : String → Bool} {env plain : Envelope}

theorem Entry.congr (h : Entry chan d hidden env plain)
    (hkeys : loadKeys chan.fullName d' = loadKeys chan.fullName d) :
    Entry chan d' hidden env plain :=
  ⟨h.id, h.channel, fun hvisible => by
    rw [decryptEnvelope_congr hkeys h.channel]
    exact h.decrypts hvisible⟩

/-- What opens without a key opens with any. -/
theorem Entry.first (h : Entry chan d hidden env plain) (hnone : loadKeys chan.fullName d = .ok [])
    (d' : Datadir) : Entry chan d' hidden env plain := by
  refine ⟨h.id, h.channel, fun hvisible => ?_⟩
  have hopen := h.decrypts hvisible
  unfold decryptEnvelope at hopen ⊢
  cases hbody : env.msg.body with
  | text text =>
    rw [hbody] at hopen
    exact hopen
  | encrypted keyId nonce ciphertext =>
    rw [hbody] at hopen
    simp only [Query.bind_ok, h.channel, hnone, Except.ok.injEq, exists_eq_left',
      Query.orBail_apply, orBail_eq_ok, List.find?_nil, reduceCtorEq, false_and,
      exists_false] at hopen

/-- Another log and another index, and nothing else. -/
theorem Displays.relogged {records' : List Envelope} {b' : Board} {log : Bytes} {index : Index}
    (h : Displays chan me d records keys b) (hdir : d.channels[chan.fullName]? = some dir)
    (horderly : Orderly chan (d.put chan.fullName { dir with log := some log, index }) records')
    (hhidden : b'.hidden = b.hidden)
    (hentries : List.Forall₂ (Entry chan d b.hidden) records' b'.messages)
    (hwritable : b'.writable = b.writable) :
    Displays chan me (d.put chan.fullName { dir with log := some log, index }) records' keys
      b' := by
  have hkeyring : loadKeys chan.fullName
      (d.put chan.fullName { dir with log := some log, index }) = loadKeys chan.fullName d := by
    rw [loadKeys, getElem?_put_self, loadKeys, hdir]
  refine h.of_files rfl hdir (getElem?_put_self _ _ _) ⟨rfl, rfl, rfl⟩ rfl horderly
    (hkeyring.trans h.keyring) h.sound hhidden ?_ hwritable Iff.rfl
  exact hentries.imp fun _ _ hentry => hentry.congr hkeyring

/-- An index that was brought up to date. -/
theorem Displays.indexed (h : Displays chan me d records keys b)
    (hdir : d.channels[chan.fullName]? = some dir) {index : Index}
    (horderly : Orderly chan (d.put chan.fullName { dir with index }) records) :
    Displays chan me (d.put chan.fullName { dir with index }) records keys b := by
  obtain ⟨dir', log, hdir', hlog⟩ := h.exists_dir
  cases hdir.symm.trans hdir'
  have hsame : { dir with index } = { dir with log := some log, index } := by rw [← hlog]
  rw [hsame] at horderly ⊢
  exact h.relogged hdir horderly rfl h.entries rfl

/-- Another channel. -/
theorem Displays.of_other (h : Displays chan me d records keys b)
    (hne : other.fullName ≠ chan.fullName) (dir' : Dir) :
    Displays chan me (d.put other.fullName dir') records keys b := by
  obtain ⟨dir, log, hdir, hlog⟩ := h.exists_dir
  have hsame : (d.put other.fullName dir').channels[chan.fullName]? =
      d.channels[chan.fullName]? := getElem?_put_of_ne hne
  have hkeyring : loadKeys chan.fullName (d.put other.fullName dir') =
      loadKeys chan.fullName d := by
    rw [loadKeys, hsame, loadKeys]
  have horderly : Orderly chan (d.put other.fullName dir') records := by
    obtain ⟨dir₁, hdir₁, hrecords⟩ := h.orderly.dir
    exact ⟨⟨dir₁, hsame.trans hdir₁, hrecords⟩, h.orderly.channel⟩
  refine h.of_files rfl hdir (hsame.trans hdir) ⟨rfl, rfl, rfl⟩ (by simp [hlog]) horderly
    (hkeyring.trans h.keyring) h.sound rfl ?_ rfl Iff.rfl
  exact h.entries.imp fun _ _ hentry => hentry.congr hkeyring

/-- The first key, drawn by the owner. -/
theorem Displays.drawn {policy : ChannelPolicy} {raw : Bytes}
    (h : Displays chan me d records keys b) (hdir : d.channels[chan.fullName]? = some dir)
    (hpolicy : readChannelPolicy chan d = .ok policy) (howner : policy.owner = some me.publicKey)
    (hnone : loadKeys chan.fullName d = .ok []) (hraw : raw.length = 32) :
    Displays chan me (d.put chan.fullName { dir with channelKeys := .value [.ofRaw raw] }) records
      [.ofRaw raw] b := by
  have hkeyring : loadKeys chan.fullName
      (d.put chan.fullName { dir with channelKeys := .value [.ofRaw raw] }) = .ok [.ofRaw raw] := by
    rw [loadKeys, getElem?_put_self]
    rfl
  obtain ⟨dir', log, hdir', hlog⟩ := h.exists_dir
  cases hdir.symm.trans hdir'
  obtain rfl : keys = [] := Except.ok.inj (h.keyring.symm.trans hnone)
  have horderly : Orderly chan
      (d.put chan.fullName { dir with channelKeys := .value [.ofRaw raw] }) records := by
    obtain ⟨dir₁, hdir₁, hrecords⟩ := h.orderly.dir
    cases hdir.symm.trans hdir₁
    exact ⟨⟨_, getElem?_put_self _ _ _, hrecords.log, hrecords.indexed⟩, h.orderly.channel⟩
  have hsound : Sound [ChannelKey.ofRaw raw] := Sound.nil.concat hraw (by simp)
  refine h.of_files rfl hdir (getElem?_put_self _ _ _) ⟨rfl, rfl, rfl⟩ (by simp [hlog]) horderly
    hkeyring hsound rfl ?_ rfl ?_
  · exact h.entries.imp fun _ _ hentry => hentry.first hnone _
  · constructor
    · rintro ⟨policy', hpolicy', happend, -⟩
      cases hpolicy.symm.trans hpolicy'
      exact ⟨policy, hpolicy, happend, fun _ _ => howner⟩
    · rintro ⟨policy', hpolicy', happend, -⟩
      exact ⟨policy', hpolicy', happend, fun _ hnil => absurd hnil (List.cons_ne_nil _ _)⟩

/-! ## Each call -/

/-- **A tail of any channel** leaves the board. -/
theorem Displays.readTail (h : Displays chan me d records keys b) (other : ChannelRef) (n : ℕ) :
    Displays chan me ((readChannelTail other n false).exec d).2 records keys b := by
  rcases exec_readChannelTail_cases other n d with hsame | ⟨dir, index, hdir, hindexed⟩
  · rw [hsame]
    exact h
  rcases eq_or_ne other.fullName chan.fullName with hname | hne
  · obtain rfl : other = chan := by
      cases other
      cases chan
      cases hname
      rfl
    have horderly : Orderly other (StoreOp.exec other (.readChannelTail n false) d) records :=
      h.orderly.other (by rintro env ⟨⟩)
    rw [StoreOp.exec, StoreOp.op, exec_ignore, hindexed] at horderly
    rw [hindexed]
    exact h.indexed hdir horderly
  · rw [hindexed]
    exact h.of_other hne _

/-- Signing for another channel. -/
theorem Displays.sign_other (h : Displays chan me d records keys b)
    (hne : other.fullName ≠ chan.fullName) (signer : KeypairFile) (message : Message)
    (raw nonce : Bytes) :
    Displays chan me ((signMessageForChannel other signer message raw nonce).exec d).2 records keys
      b := by
  rcases exec_signMessageForChannel_cases other signer message raw nonce d with
    hsame | ⟨dir, policy, -, -, -, -, -, hdrawn⟩
  · rw [hsame]
    exact h
  · rw [hdrawn]
    exact h.of_other hne _

/-- Appending to another channel. -/
theorem Displays.append_other (h : Displays chan me d records keys b)
    (hne : other.fullName ≠ chan.fullName) (env : Envelope) :
    Displays chan me ((appendMessage other env).exec d).2 records keys b := by
  rcases exec_appendMessage_cases other env d with
    hsame | ⟨dir, index, -, hmade | ⟨-, -, -, happended⟩⟩
  · rw [hsame]
    exact h
  · rw [hmade]
    exact h.of_other hne _
  · rw [happended]
    exact h.of_other hne _

/-- Signing for the channel itself, whatever comes of it. -/
theorem Displays.sign (h : Displays chan me d records keys b) (message : Message)
    {raw : Bytes} (nonce : Bytes) (hraw : raw.length = 32) :
    ∃ keys', Displays chan me ((signMessageForChannel chan me message raw nonce).exec d).2 records
      keys' b := by
  rcases exec_signMessageForChannel_cases chan me message raw nonce d with
    hsame | ⟨dir, policy, hdir, hpolicy, -, howner, hnone, hdrawn⟩
  · rw [hsame]
    exact ⟨keys, h⟩
  · rw [hdrawn]
    exact ⟨_, h.drawn hdir hpolicy howner hnone hraw⟩

/-! ## Each tool -/

theorem solo_decryptEnvelopes {envs plains : List Envelope}
    (h : List.Forall₂ (fun env plain => decryptEnvelope env d = .ok plain) envs plains) :
    (decryptEnvelopes envs).solo d = ([], .ok plains, d) := by
  induction h with
  | nil => rfl
  | cons hplain _ ih =>
    rw [decryptEnvelopes, solo_ask_bind hplain, solo_bind_of_ok ih]
    rfl

/-- **The last records open to the last messages.** -/
theorem entries_lastVisible {messages : List Envelope}
    (h : List.Forall₂ (Entry chan d hidden) records messages) (n : ℕ) :
    List.Forall₂ (fun env plain => decryptEnvelope env d = .ok plain)
      (lastVisible hidden n records) (lastVisible hidden n messages) := by
  -- the two have the same ids, so the same of them are hidden
  have hvisible : List.Forall₂ (fun env plain => decryptEnvelope env d = .ok plain)
      (records.filter fun env => !hidden env.id) (messages.filter fun env => !hidden env.id) := by
    induction h with
    | nil => exact .nil
    | @cons env plain _ _ hentry _ ih =>
      rw [List.filter_cons, List.filter_cons, hentry.id]
      cases hhide : hidden env.id with
      | true => exact ih
      | false => exact .cons (hentry.decrypts hhide) ih
  exact List.forall₂_reverse_iff.2 (List.forall₂_take n (List.forall₂_reverse_iff.2 hvisible))

/-- **A tail of the channel shows the last of the board.** -/
theorem Displays.solo_tailChannel (h : Displays chan me d records keys b) {args : TailChannelArgs}
    (hchannel : args.channel = chan.fullName) :
    ∃ d', (tailChannel args).solo d =
        ([], .ok (.messages chan.fullName (b.view args.limit)), d') ∧
      Displays chan me d' records keys b := by
  obtain ⟨state, hstate, hhidden⟩ := h.moderation
  obtain ⟨⟨dir, log⟩, hopen⟩ := h.there
  have hread : ∃ d', (readChannelTail chan args.limit false).exec d =
      (.ok (lastVisible b.hidden args.limit records), d') := by
    by_cases hn : args.limit = 0
    · exact ⟨d, by simp [readChannelTail, hn, lastVisible]⟩
    · obtain ⟨scanned, htail⟩ := h.orderly.tail hopen (state.tombstoned.contains ·) args.limit
      have hsame : (fun id => state.tombstoned.contains id) = b.hidden := funext hhidden
      refine ⟨d.put chan.fullName (dir.indexed scanned), ?_⟩
      rw [exec_readChannelTail hstate hn, htail, hsame]
  obtain ⟨d', hread⟩ := hread
  have hafter := h.readTail chan args.limit
  rw [hread] at hafter
  have hplain := solo_decryptEnvelopes (entries_lastVisible hafter.entries args.limit)
  have hparse : ChannelRef.parse args.channel = .ok chan := by
    rw [hchannel, ChannelRef.parse_fullName]
  refine ⟨d', ?_, hafter⟩
  rw [tailChannel, solo_except_bind hparse, solo_ask_bind h.ensureChannelLogExists,
    solo_ask_bind h.loadIdentity, solo_ask_bind h.readable, solo_call_bind hread,
    solo_bind_of_ok hplain]
  rfl

/-- What a message is signed into for the channel. -/
structure Signed (chan : ChannelRef) (me : KeypairFile) (message : Message) (d : Datadir)
    (env : Envelope) : Prop where
  channel : env.channel = chan.fullName
  sender : env.sender = me.publicKey
  verifies : env.verify = .ok ()
  opens : decryptEnvelope env d = .ok { env with msg := message }

theorem exists_sign (hme : me.Matches) (channel : String) (message : Message) :
    ∃ env, Envelope.sign me channel message = .ok env ∧ env.channel = channel ∧
      env.sender = me.publicKey ∧ env.msg = message ∧ env.verify = .ok () := by
  obtain ⟨pk, hpk, hpklen, hsigns⟩ := id hme
  obtain ⟨sig, hsig, -, -⟩ := hsigns (signedPayload channel message)
  have hsign := Envelope.sign_ok.2 ⟨sig, hsig, rfl⟩
  exact ⟨_, hsign, rfl, rfl, rfl, verify_of_sign hme hsign _ rfl⟩

/-- Sealed under the last of the keys. -/
theorem exists_encrypt_sign {message : Message} {text : String} {nonce : Bytes}
    (hme : me.Matches) (hload : loadKeys chan.fullName d = .ok keys) (hsound : Sound keys)
    (hne : keys ≠ []) (htext : message.body = .text text) (hnonce : nonce.length = 24) :
    ∃ env, Op.exec (do
        let encrypted ← encryptMessage chan.fullName nonce message
        (Envelope.sign me chan.fullName encrypted : Except Error Envelope) :
          StoreM Envelope) d = (.ok env, d) ∧ Signed chan me message d env := by
  obtain ⟨raw, hraw, hlast, hencrypt⟩ := exists_encryptMessage nonce hload hsound hne htext
  have hmem : .ofRaw raw ∈ keys := hlast ▸ List.getLast_mem hne
  obtain ⟨env, hsign, hchannel, hsender, hmsg, hverify⟩ :=
    exists_sign hme chan.fullName (sealedUnder chan.fullName raw nonce text message)
  refine ⟨env, ?_, hchannel, hsender, hverify, ?_⟩
  · rw [Op.exec_query_bind, hencrypt]
    dsimp only
    rw [Op.exec_except, hsign]
  · exact decryptEnvelope_sealedUnder hload hsound hmem hraw hnonce hchannel htext hmsg

/-- **Who may post signs a message that opens.** -/
theorem Displays.sign_allowed (h : Displays chan me d records keys b) (hme : me.Matches)
    (hpost : CanPost chan me keys d) {message : Message} {text : String} {raw nonce : Bytes}
    (htext : message.body = .text text) (hraw : raw.length = 32) (hnonce : nonce.length = 24) :
    ∃ env d' keys', (signMessageForChannel chan me message raw nonce).exec d = (.ok env, d') ∧
      Signed chan me message d' env ∧ Displays chan me d' records keys' b ∧
      CanPost chan me keys' d' := by
  obtain ⟨policy, hpolicy, happend, hkeys⟩ := id hpost
  have hafter := h.sign message nonce hraw
  suffices hsigned : ∃ env d', (signMessageForChannel chan me message raw nonce).exec d =
      (.ok env, d') ∧ Signed chan me message d' env by
    obtain ⟨env, d', hexec, hsigned⟩ := hsigned
    rw [hexec] at hafter
    obtain ⟨keys', hafter⟩ := hafter
    exact ⟨env, d', keys', hexec, hsigned, hafter, hafter.writable.1 (h.writable.2 hpost)⟩
  rw [signMessageForChannel, Op.exec_query_bind, hpolicy]
  dsimp only
  by_cases hprivate : policy.visibility = .private_
  swap
  · rw [if_neg hprivate, Op.exec_except]
    obtain ⟨env, hsign, hchannel, hsender, hmsg, hverify⟩ := exists_sign hme chan.fullName message
    refine ⟨env, d, by rw [hsign], hchannel, hsender, hverify, ?_⟩
    rw [decryptEnvelope, hmsg, htext, ← hmsg]
    rfl
  rw [if_pos hprivate, Op.exec_query_bind, h.keyring]
  dsimp only
  by_cases hnone : keys = []
  · -- without a key it is the owner that posts, and draws one
    subst hnone
    have howner := hkeys hprivate rfl
    obtain ⟨dir, log, hdir, hlog⟩ := h.exists_dir
    have hdrawn := h.drawn hdir hpolicy howner h.keyring hraw
    have hgenerate : (generateChannelKey chan.fullName raw).exec d = (.ok (.ofRaw raw),
        d.put chan.fullName { dir with channelKeys := .value [.ofRaw raw] }) := by
      rw [generateChannelKey, Op.exec_query_bind, openDir_ok.2 hdir]
      dsimp only
      rw [Op.exec_query_bind, h.keyring]
      dsimp only
      rw [saveKeys, Op.exec_bind_of_ok (exec_modifyDir hdir)]
      rfl
    rw [if_pos ⟨rfl, howner⟩, Op.exec_bind_of_ok hgenerate]
    obtain ⟨env, hexec, hsigned⟩ := exists_encrypt_sign hme hdrawn.keyring hdrawn.sound
      (List.cons_ne_nil _ _) htext hnonce
    exact ⟨env, _, hexec, hsigned⟩
  · rw [if_neg fun hfirst => hnone (List.isEmpty_iff.1 hfirst.1)]
    obtain ⟨env, hexec, hsigned⟩ := exists_encrypt_sign hme h.keyring h.sound hnone htext hnonce
    exact ⟨env, d, hexec, hsigned⟩

/-- The ids on the board are those of the records. -/
theorem Displays.ids (h : Displays chan me d records keys b) :
    b.messages.map Envelope.id = records.map Envelope.id := by
  have hentries := h.entries
  clear h
  revert hentries
  generalize b.messages = messages
  intro hentries
  induction hentries with
  | nil => rfl
  | cons hentry _ ih => rw [List.map_cons, List.map_cons, hentry.id, ih]

/-- **A post that is appended** is on the board. -/
theorem Displays.append (h : Displays chan me d records keys b) (hpost : CanPost chan me keys d)
    {message : Message} (hsigned : Signed chan me message d env) :
    ∃ d' records', (appendMessage chan env).exec d = (.ok env.id, d') ∧
      Displays chan me d' records' keys (b.post { env with msg := message }) := by
  obtain ⟨dir, hdir, hlog, scanned, hok, rfl⟩ := h.orderly.dir
  obtain ⟨dir', log, hdir', hfile⟩ := h.exists_dir
  cases hdir.symm.trans hdir'
  have hauth : authorizeAppend chan env.sender d = .ok () := by
    obtain ⟨policy, hpolicy, happend, -⟩ := hpost
    exact authorizeAppend_ok.2 ⟨policy, hpolicy, by rwa [hsigned.sender]⟩
  have houtcome : AppendOutcome chan env d dir scanned _ := appendMessage_exec hdir hok
  have hids : b.messages.map Envelope.id = scanned.map fun item => item.envelope.id := by
    rw [h.ids, List.map_map]
    rfl
  revert houtcome
  generalize (appendMessage chan env).exec d = result
  intro houtcome
  cases houtcome with
  | rejected hbad => exact absurd hsigned.verifies (hbad hsigned.channel)
  | unauthorized hbad => exact absurd hauth hbad
  | known _ _ hknown =>
    refine ⟨_, _, rfl, h.relogged hdir
      ⟨⟨_, getElem?_put_self _ _ _, hlog, scanned, hok.ensured, rfl⟩, h.orderly.channel⟩ rfl ?_
      rfl⟩
    obtain ⟨item, hitem, hid⟩ := hknown
    have hmem : env.id ∈ b.messages.map Envelope.id := by
      rw [hids]
      exact List.mem_map.2 ⟨item, hitem, hid⟩
    have hsame : (b.post { env with msg := message }).messages = b.messages := if_pos hmem
    rw [hsame]
    exact h.entries
  | appended hverify _ hnew =>
    refine ⟨_, scanned.map (·.envelope) ++ [env], rfl, h.relogged hdir
      ⟨⟨_, getElem?_put_self _ _ _, ?_, _, hok.append hverify hnew, ?_⟩, ?_⟩ rfl ?_ rfl⟩
    · simp only [Option.getD_some, hlog, Ndjson.Codec.records, List.flatMap_append,
        List.flatMap_singleton]
    · simp
    · intro env' henv'
      rcases List.mem_append.1 henv' with hold | hnew'
      · exact h.orderly.channel env' hold
      · rw [List.mem_singleton.1 hnew', hsigned.channel]
    · have hmem : env.id ∉ b.messages.map Envelope.id := by
        rw [hids]
        intro hmem
        obtain ⟨item, hitem, hid⟩ := List.mem_map.1 hmem
        exact hnew item hitem hid
      have hmore : (b.post { env with msg := message }).messages =
          b.messages ++ [{ env with msg := message }] := if_neg hmem
      rw [hmore]
      refine List.rel_append h.entries (.cons ?_ .nil)
      exact ⟨rfl, hsigned.channel, fun _ => hsigned.opens⟩

/-- What the policy refuses is not appended. -/
theorem Displays.append_refused (h : Displays chan me d records keys b)
    (hauth : authorizeAppend chan env.sender d ≠ .ok ()) :
    ∃ e d', (appendMessage chan env).exec d = (.error e, d') ∧
      Displays chan me d' records keys b := by
  obtain ⟨dir, hdir, hlog, scanned, hok, rfl⟩ := h.orderly.dir
  have houtcome : AppendOutcome chan env d dir scanned _ := appendMessage_exec hdir hok
  revert houtcome
  generalize (appendMessage chan env).exec d = result
  intro houtcome
  cases houtcome with
  | rejected _ => exact ⟨_, d, rfl, h⟩
  | unauthorized _ =>
    exact ⟨_, _, rfl, h.relogged hdir
      ⟨⟨_, getElem?_put_self _ _ _, hlog, scanned, hok, rfl⟩, h.orderly.channel⟩ rfl h.entries rfl⟩
  | known _ hallow _ => exact absurd hallow hauth
  | appended _ hallow _ => exact absurd hallow hauth

/-- **Who may not post** is refused, at the signing or at the append. -/
theorem Displays.sign_refused (h : Displays chan me d records keys b)
    (hpost : ¬ CanPost chan me keys d) {message : Message} {env : Envelope} {raw nonce : Bytes}
    (hexec : (signMessageForChannel chan me message raw nonce).exec d = (.ok env, d')) :
    authorizeAppend chan env.sender d' ≠ .ok () := by
  intro hauth
  obtain ⟨-, hsender, -⟩ := exec_signMessageForChannel_ok hexec
  rw [hsender] at hauth
  have hcases := exec_signMessageForChannel_cases chan me message raw nonce d
  rw [hexec] at hcases
  rcases hcases with hsame | ⟨dir, policy, hdir, hpolicy, hprivate, howner, hnone, hdrawn⟩
  · obtain rfl : d' = d := hsame
    obtain ⟨policy, hpolicy, happend⟩ := authorizeAppend_ok.1 hauth
    refine hpost ⟨policy, hpolicy, happend, fun hprivate hnil => ?_⟩
    -- signing returned without a key, so the owner drew one
    by_contra howner
    rw [signMessageForChannel, Op.exec_query_bind, hpolicy] at hexec
    dsimp only at hexec
    rw [if_pos hprivate, Op.exec_query_bind, h.keyring] at hexec
    dsimp only at hexec
    subst hnil
    rw [if_neg fun hfirst => howner hfirst.2, Op.exec_query_bind, encryptMessage,
      Query.bind_apply, currentChannelKey, Query.bind_apply, h.keyring] at hexec
    cases hexec
  · obtain rfl : d' = _ := hdrawn
    obtain ⟨policy', hpolicy', happend⟩ := authorizeAppend_ok.1 hauth
    have hsame := readChannelPolicy_same hdir (getElem?_put_self d chan.fullName
      { dir with channelKeys := .value [.ofRaw raw] }) ⟨rfl, rfl, rfl⟩
    rw [hsame] at hpolicy'
    cases hpolicy.symm.trans hpolicy'
    exact hpost ⟨policy, hpolicy, happend, fun _ _ => howner⟩

/-- Where the channel is there, a post goes as far as its signing. -/
theorem Displays.solo_post_start (h : Displays chan me d records keys b) {args : PostMessageArgs}
    (hchannel : args.channel = chan.fullName) (supply : Supply) :
    (postMessage args supply).solo d = (do
      let env ← Proc.call .signMessageForChannel (signMessageForChannel chan me
        (Message.newText supply.now args.title args.tags args.body args.refs) supply.raw
        supply.nonce)
      let id ← Proc.call .appendMessage (appendMessage chan env)
      pure (.posted id chan.fullName env) : Task Payload).solo d := by
  have hparse : ChannelRef.parse args.channel = .ok chan := by
    rw [hchannel, ChannelRef.parse_fullName]
  rw [postMessage, solo_except_bind hparse, solo_ask_bind h.ensureChannelLogExists,
    solo_ask_bind h.loadIdentity]

/-- **A post by who may write** is on the board. -/
theorem Displays.solo_postMessage (h : Displays chan me d records keys b) (hme : me.Matches)
    (hwritable : b.writable = true) {args : PostMessageArgs}
    (hchannel : args.channel = chan.fullName) (hraw : supply.raw.length = 32)
    (hnonce : supply.nonce.length = 24) :
    ∃ env d' records' keys', (postMessage args supply).solo d =
        ([], .ok (.posted env.id chan.fullName env), d') ∧
      env.channel = chan.fullName ∧ env.sender = me.publicKey ∧ env.verify = .ok () ∧
      Displays chan me d' records' keys' (b.post { env with
        msg := Message.newText supply.now args.title args.tags args.body args.refs }) := by
  have htext : (Message.newText supply.now args.title args.tags args.body args.refs).body =
      .text args.body := rfl
  obtain ⟨env, d₁, keys₁, hsign, hsigned, hafter, hpost⟩ :=
    h.sign_allowed hme (h.writable.1 hwritable) htext hraw hnonce
  obtain ⟨d', records', happend, hdisplays⟩ := hafter.append hpost hsigned
  refine ⟨env, d', records', keys₁, ?_, hsigned.channel, hsigned.sender, hsigned.verifies,
    hdisplays⟩
  rw [h.solo_post_start hchannel, solo_call_bind hsign, solo_call_bind happend]
  rfl

/-- **A post by who may not** is an error. -/
theorem Displays.solo_postMessage_refused (h : Displays chan me d records keys b)
    (hwritable : b.writable = false) {args : PostMessageArgs}
    (hchannel : args.channel = chan.fullName) (hraw : supply.raw.length = 32) :
    ∃ e d' keys', (postMessage args supply).solo d = ([], .error e, d') ∧
      Displays chan me d' records keys' b := by
  have hpost : ¬ CanPost chan me keys d := fun hpost => by
    rw [h.writable.2 hpost] at hwritable
    cases hwritable
  obtain ⟨keys', hafter⟩ := h.sign
    (Message.newText supply.now args.title args.tags args.body args.refs) supply.nonce hraw
  rw [h.solo_post_start hchannel, solo_bind, solo_call]
  rcases hexec : (signMessageForChannel chan me (Message.newText supply.now args.title args.tags
    args.body args.refs) supply.raw supply.nonce).exec d with ⟨e | env, d₁⟩
  · rw [hexec] at hafter
    exact ⟨e, d₁, keys', rfl, hafter⟩
  · rw [hexec] at hafter
    obtain ⟨e, d', happend, hdisplays⟩ := hafter.append_refused (h.sign_refused hpost hexec)
    refine ⟨e, d', keys', ?_, hdisplays⟩
    show ([] ++ _, _) = _
    rw [solo_bind_of_error (solo_call.trans (by rw [happend]))]
    rfl

/-! ## Other channels -/

/-- The channel a tool is about. -/
def Tool.channel? : Tool → Option String
  | .tailChannel args => some args.channel
  | .postMessage args => some args.channel
  | .listChannels | .unknown _ => none

/-- The node shows this board. -/
def Shows (chan : ChannelRef) (me : KeypairFile) (b : Board) (d : Datadir) : Prop :=
  ∃ records keys, Displays chan me d records keys b

/-- **A tool about another channel** leaves the board. -/
theorem shows_of_other {tool : Tool} (hchannel : tool.channel? ≠ some chan.fullName)
    (h : Shows chan me b d) : Shows chan me b ((tool.run supply).solo d).2.2 := by
  refine solo_keeps (S := fun _ _ x => Op.Keeps (Shows chan me b) x) ?_ (fun _ _ _ hx => hx) h
  have hask {α : Type} (l : Call) (q : ReadM α) :
      (ask l q).Each fun _ _ x => Op.Keeps (Shows chan me b) x :=
    each_call fun _ hshows => hshows
  have hdecrypt (envs : List Envelope) :
      (decryptEnvelopes envs).Each fun _ _ x => Op.Keeps (Shows chan me b) x := by
    induction envs with
    | nil => exact trivial
    | cons env envs ih => exact (hask _ _).bind fun _ => ih.bind fun _ => trivial
  cases tool with
  | listChannels => exact (hask _ _).bind fun _ => (hask _ _).bind fun _ => trivial
  | tailChannel args =>
    refine (each_except _).bind fun other => (hask _ _).bind fun _ => (hask _ _).bind fun _ => ?_
    refine (hask _ _).bind fun _ => (each_call ?_).bind fun envs => ?_
    swap
    · exact (hdecrypt envs).bind fun _ => trivial
    rintro d ⟨records, keys, hdisplays⟩
    exact ⟨records, keys, hdisplays.readTail other args.limit⟩
  | postMessage args =>
    -- the name decides which channel is written
    show ((liftM (ChannelRef.parse args.channel) : Task ChannelRef) >>= _).Each _
    cases hparse : ChannelRef.parse args.channel with
    | error e => exact trivial
    | ok other =>
      have hne : other.fullName ≠ chan.fullName := by
        rw [ChannelRef.fullName_of_parse hparse]
        exact fun heq => hchannel (congrArg some heq)
      refine (hask _ _).bind fun _ => (hask _ _).bind fun keypair => ?_
      refine (each_call ?_).bind fun env => ?_
      · rintro d ⟨records, keys, hdisplays⟩
        exact ⟨records, keys, hdisplays.sign_other hne keypair _ supply.raw supply.nonce⟩
      · refine (each_call ?_).bind fun _ => trivial
        rintro d ⟨records, keys, hdisplays⟩
        exact ⟨records, keys, hdisplays.append_other hne env⟩
  | unknown name => exact trivial

end Board

end Mcp

end Embernet
