import Embernet.Terminal.Requests
/-!
# MCP posting — what a client of the server can do to the node

A client reads, and it posts in the name of the node's identity where the
policy lets that identity write. It does nothing else: no step of the
server touches a policy, a moderation or a saved history, and a log only
grows, by the posts. The other processes of the node may do anything
meanwhile but replace the identity.
-/

set_option autoImplicit false

namespace Embernet

namespace Mcp

open Primitives Serde Proc

section Posting

variable [Primitives] {chan : ChannelRef} {d d' : Datadir} {dir : Dir} {path : String}

/-! ## What a post leaves -/

/-- What becomes of a directory's files. `d` is the node before. -/
structure Kept (d : Datadir) (path : String) (dir dir' : Dir) : Prop where
  policyJson : dir'.policyJson = dir.policyJson
  policyLog : dir'.policyLog = dir.policyLog
  moderationLog : dir'.moderationLog = dir.moderationLog
  moderationJson : dir'.moderationJson = dir.moderationJson
  saved : dir'.saved = dir.saved
  /-- A private channel gets its first key, from its owner. -/
  keys : dir'.channelKeys = dir.channelKeys ∨ ∃ me chan policy raw,
    Embernet.loadIdentity d = .ok me ∧ chan.fullName = path ∧
      readChannelPolicy chan d = .ok policy ∧ policy.visibility = .private_ ∧
      policy.owner = some me.publicKey ∧ loadKeys path d = .ok [] ∧
      dir'.channelKeys = .value [.ofRaw raw]
  /-- The log is there, or gets one record, of the identity. -/
  log : dir'.log = dir.log ∨ dir'.log = some (dir.log.getD []) ∨ ∃ me chan env,
    Embernet.loadIdentity d = .ok me ∧ env.sender = me.publicKey ∧ chan.fullName = path ∧
      env.channel = path ∧ env.verify = .ok () ∧ authorizeAppend chan me.publicKey d = .ok () ∧
      dir'.log = some (dir.log.getD [] ++ envelopeCodec.record env)

/-- What a step of the server may do to the node. -/
structure Posts (d d' : Datadir) : Prop where
  identity : d'.identity = d.identity
  dirs : ∀ path, d.channels[path]? = none ∧ d'.channels[path]? = none ∨
    ∃ dir dir', d.channels[path]? = some dir ∧ d'.channels[path]? = some dir' ∧
      Kept d path dir dir'

/-- An index that was brought up to date is no change. -/
theorem Kept.same (d : Datadir) (path : String) (dir : Dir) (index : Index) :
    Kept d path dir { dir with index } :=
  ⟨rfl, rfl, rfl, rfl, rfl, .inl rfl, .inl rfl⟩

/-- To write nothing is to post only. -/
theorem Posts.refl (d : Datadir) : Posts d d := by
  refine ⟨rfl, fun path => ?_⟩
  rcases hdir : d.channels[path]? with _ | dir
  · exact .inl ⟨rfl, rfl⟩
  · exact .inr ⟨dir, dir, rfl, rfl, Kept.same d path dir dir.index⟩

/-- So is one write that keeps the rest. -/
theorem Posts.put {dir' : Dir} (hdir : d.channels[path]? = some dir) (h : Kept d path dir dir') :
    Posts d (d.put path dir') := by
  refine ⟨rfl, fun path' => ?_⟩
  rcases eq_or_ne path path' with rfl | hne
  · exact .inr ⟨dir, dir', hdir, getElem?_put_self _ _ _, h⟩
  · rw [getElem?_put_of_ne hne]
    exact (Posts.refl d).dirs path'

/-! ## One call -/

/-- **A tail** writes at most the index that it brings up to date. -/
theorem exec_readChannelTail_cases (chan : ChannelRef) (n : ℕ) (d : Datadir) :
    ((readChannelTail chan n false).exec d).2 = d ∨
      ∃ dir index, d.channels[chan.fullName]? = some dir ∧
        ((readChannelTail chan n false).exec d).2 = d.put chan.fullName { dir with index } := by
  rw [readChannelTail]
  split
  · exact .inl rfl
  simp only [Bool.false_eq_true, if_false]
  rw [Op.exec_query_bind]
  cases moderationState chan d with
  | error e => exact .inl rfl
  | ok state =>
    dsimp only
    rw [readIndexed, Op.exec_query_bind]
    cases hopen : openLog chan d with
    | error e => exact .inl rfl
    | ok opened =>
      obtain ⟨dir, log⟩ := opened
      dsimp only
      rw [Op.exec_except_bind]
      cases ensureIndex log dir.index with
      | error e => exact .inl rfl
      | ok db =>
        dsimp only
        have hdir := (openLog_ok.1 hopen).1
        rw [Op.exec_bind_of_ok (exec_modifyDir hdir), Op.exec_except]
        exact .inr ⟨dir, db, hdir, rfl⟩

/-- A read of the tail writes the index at most. -/
theorem posts_readChannelTail (n : ℕ) : Posts d ((readChannelTail chan n false).exec d).2 := by
  rcases exec_readChannelTail_cases chan n d with hsame | ⟨dir, index, hdir, hindexed⟩
  · rw [hsame]
    exact .refl d
  · rw [hindexed]
    exact .put hdir (Kept.same d _ dir index)

/-- **An append** leaves its record or none. -/
theorem exec_appendMessage_cases (chan : ChannelRef) (env : Envelope) (d : Datadir) :
    ((appendMessage chan env).exec d).2 = d ∨
      ∃ dir index, d.channels[chan.fullName]? = some dir ∧
        (((appendMessage chan env).exec d).2 =
            d.put chan.fullName { dir with log := some (dir.log.getD []), index } ∨
          env.channel = chan.fullName ∧ env.verify = .ok () ∧
            authorizeAppend chan env.sender d = .ok () ∧
            ((appendMessage chan env).exec d).2 = d.put chan.fullName
              { dir with log := some (dir.log.getD [] ++ envelopeCodec.record env), index }) := by
  rw [appendMessage, Op.exec_bailIf_bind]
  by_cases hchan : env.channel = chan.fullName
  swap
  · rw [if_pos hchan]
    exact .inl rfl
  rw [if_neg (not_not.2 hchan), Op.exec_except_bind]
  cases hverify : env.verify with
  | error e => exact .inl rfl
  | ok u =>
    simp only [context]
    rw [Op.exec_query_bind]
    cases hopen : openDir chan.fullName d with
    | error e => exact .inl rfl
    | ok dir =>
      have hdir := openDir_ok.1 hopen
      refine .inr ?_
      dsimp only
      rw [Op.exec_bind_of_ok (exec_modifyDir hdir), Op.exec_query_bind]
      have hauth : authorizeAppend chan env.sender
          (d.put chan.fullName { dir with log := some (dir.log.getD []) }) =
            authorizeAppend chan env.sender d := by
        have hpolicy : readChannelPolicy chan
            (d.put chan.fullName { dir with log := some (dir.log.getD []) }) =
              readChannelPolicy chan d := by
          rw [readChannelPolicy_of_getElem? (getElem?_put_self _ _ _),
            readChannelPolicy_of_getElem? hdir]
          exact readDirPolicy_congr rfl rfl
        simp only [authorizeAppend, Query.bind_apply, hpolicy, Query.bailIf_apply]
      rw [hauth]
      cases hallow : authorizeAppend chan env.sender d with
      | error e => exact ⟨dir, dir.index, hdir, .inl rfl⟩
      | ok u =>
        dsimp only
        rw [Op.exec_except_bind]
        cases ensureIndex (dir.log.getD []) dir.index with
        | error e => exact ⟨dir, dir.index, hdir, .inl rfl⟩
        | ok db =>
          dsimp only
          rw [Op.exec_bind_of_ok (exec_modifyDir (getElem?_put_self _ _ _)), put_put]
          split
          · exact ⟨dir, db, hdir, .inl rfl⟩
          · rw [Op.exec_bind_of_ok (exec_modifyDir (getElem?_put_self _ _ _)), put_put,
              Op.exec_except_bind]
            cases indexInsert db env.id (dir.log.getD []).length (envelopeCodec.record env).length
                ((dir.log.getD []).length + (envelopeCodec.record env).length) with
            | error e => exact ⟨dir, db, hdir, .inr ⟨hchan, trivial, rfl, rfl⟩⟩
            | ok db' =>
              dsimp only
              rw [Op.exec_bind_of_ok (exec_modifyDir (getElem?_put_self _ _ _)), put_put]
              exact ⟨dir, db', hdir, .inr ⟨hchan, trivial, rfl, rfl⟩⟩

/-- A post in the name of the identity. -/
theorem posts_appendMessage {me : KeypairFile} {env : Envelope}
    (hme : Embernet.loadIdentity d = .ok me) (hsender : env.sender = me.publicKey) :
    Posts d ((appendMessage chan env).exec d).2 := by
  rcases exec_appendMessage_cases chan env d with
    hsame | ⟨dir, index, hdir, hmade | ⟨hchannel, hverify, hauth, happended⟩⟩
  · rw [hsame]
    exact .refl d
  · rw [hmade]
    exact .put hdir ⟨rfl, rfl, rfl, rfl, rfl, .inl rfl, .inr (.inl rfl)⟩
  · rw [happended]
    refine .put hdir ⟨rfl, rfl, rfl, rfl, rfl, .inl rfl, .inr (.inr ?_)⟩
    rw [hsender] at hauth
    exact ⟨me, chan, env, hme, hsender, rfl, hchannel, hverify, hauth, rfl⟩

/-- **Signing** draws at most the first key, for the owner. -/
theorem exec_signMessageForChannel_cases (chan : ChannelRef) (signer : KeypairFile)
    (message : Message) (raw nonce : Bytes) (d : Datadir) :
    ((signMessageForChannel chan signer message raw nonce).exec d).2 = d ∨
      ∃ dir policy, d.channels[chan.fullName]? = some dir ∧
        readChannelPolicy chan d = .ok policy ∧ policy.visibility = .private_ ∧
        policy.owner = some signer.publicKey ∧ loadKeys chan.fullName d = .ok [] ∧
        ((signMessageForChannel chan signer message raw nonce).exec d).2 =
          d.put chan.fullName { dir with channelKeys := .value [.ofRaw raw] } := by
  rw [signMessageForChannel, Op.exec_query_bind]
  cases hpolicy : readChannelPolicy chan d with
  | error e => exact .inl rfl
  | ok policy =>
    dsimp only
    split
    · next hprivate =>
      rw [Op.exec_query_bind]
      cases hload : loadKeys chan.fullName d with
      | error e => exact .inl rfl
      | ok keys =>
        dsimp only
        split
        · next hfirst =>
          obtain ⟨hempty, howner⟩ := hfirst
          obtain rfl : keys = [] := List.isEmpty_iff.1 hempty
          rw [Op.exec_bind, generateChannelKey, Op.exec_query_bind]
          cases hopen : openDir chan.fullName d with
          | error e => exact .inl rfl
          | ok dir =>
            have hdir := openDir_ok.1 hopen
            dsimp only
            rw [Op.exec_query_bind, hload]
            dsimp only
            rw [saveKeys, Op.exec_bind_of_ok (exec_modifyDir hdir), Op.exec_pure]
            exact .inr ⟨dir, policy, hdir, rfl, hprivate, howner, rfl,
              exec_encryptAndSign chan signer message nonce _⟩
        · exact .inl (exec_encryptAndSign chan signer message nonce d)
    · exact .inl rfl

/-- A signing writes the first key at most. -/
theorem posts_signMessageForChannel {me : KeypairFile} (message : Message) (raw nonce : Bytes)
    (hme : Embernet.loadIdentity d = .ok me) :
    Posts d ((signMessageForChannel chan me message raw nonce).exec d).2 := by
  rcases exec_signMessageForChannel_cases chan me message raw nonce d with
    hsame | ⟨dir, policy, hdir, hpolicy, hprivate, howner, hload, hdrawn⟩
  · rw [hsame]
    exact .refl d
  · rw [hdrawn]
    refine .put hdir ⟨rfl, rfl, rfl, rfl, rfl, .inr ?_, .inl rfl⟩
    exact ⟨me, chan, policy, raw, hme, rfl, hpolicy, hprivate, howner, hload, rfl⟩

/-! ## The server among others -/

/-- The others leave the identity; the server only posts. -/
def posting : Contract Call Bytes Datadir where
  rely g h := h.identity = g.identity
  assume _ _ := True
  guarantee _ g h := Posts g h
  rely_refl _ := rfl
  rely_trans h₁ h₂ := h₂.trans h₁

/-- A process that only posts, on a node of that identity. -/
def Careful {ε α : Type} (file : JsonFile KeypairFile) (p : Proc Datadir ε Call Bytes α) : Prop :=
  ∀ d, d.identity = file → wp plain posting p (fun _ g => g.identity = file) d

namespace Careful

variable {ε ε' α β : Type} {file : JsonFile KeypairFile} {p : Proc Datadir ε Call Bytes α}
  {f : α → Proc Datadir ε Call Bytes β} {l : Call}

/-- To return posts nothing. -/
theorem pure (a : α) : Careful file (pure a : Proc Datadir ε Call Bytes α) :=
  fun _ hd _ ht => Eq.trans ht hd

/-- To fail is careful. -/
theorem fail (e : ε) : Careful file (throw e : Proc Datadir ε Call Bytes α) :=
  fun _ hd _ ht => Eq.trans ht hd

/-- A response is no post either. -/
theorem emit (m : Bytes) : Careful file (Proc.emit m : Proc Datadir ε Call Bytes Unit) :=
  fun _ hd t ht _ => ⟨Posts.refl t, fun _ hu => Eq.trans hu (Eq.trans ht hd)⟩

/-- **A sequence.** -/
theorem bind (hp : Careful file p) (hf : ∀ a, Careful file (f a)) : Careful file (p >>= f) := by
  intro d hd
  refine wp_bind (wp_mono (fun r g hg => ?_) (hp d hd))
  cases r with
  | error e => exact hg
  | ok a => exact hf a g hg

/-- A call that posts at most. -/
theorem act {k : β → Proc Datadir ε Call Bytes α} {x : Op Datadir ε β}
    (h : ∀ d, d.identity = file → Posts d (x.exec d).2 ∧
      ∀ b t, x.exec d = (.ok b, t) → Careful file (k b)) :
    Careful file (Proc.act l x k) := by
  intro d hd
  refine wp_act (fun t b u ht _ hexec => ?_) fun t e u ht _ hexec => ?_
  all_goals
    have hfile : t.identity = file := Eq.trans ht hd
    obtain ⟨hposts, hk⟩ := h t hfile
    replace hexec : x.exec t = _ := hexec
    rw [hexec] at hposts
  · exact ⟨hposts, hk b u hexec u (hposts.identity.trans hfile)⟩
  · exact ⟨hposts, fun _ hi => Eq.trans hi (hposts.identity.trans hfile)⟩

/-- A call that only reads. -/
theorem ask_bind {q : ReadM α} {f : α → Task β}
    (h : ∀ d a, d.identity = file → q d = .ok a → Careful file (f a)) :
    Careful file (ask l q >>= f) := by
  refine act fun d hd => ⟨Posts.refl d, fun a t hexec => ?_⟩
  exact h d a hd (congrArg Prod.fst hexec)

/-- A check comes before what is careful. -/
theorem except_bind {r : Except ε α} (h : ∀ a, r = .ok a → Careful file (f a)) :
    Careful file ((liftM r : Proc Datadir ε Call Bytes α) >>= f) := by
  cases r with
  | error e => exact fail e
  | ok a => exact h a rfl

/-- **Its attempt** is as careful. -/
theorem attempt (hp : Careful file p) :
    Careful file (p.attempt : Proc Datadir ε' Call Bytes (Except ε α)) := by
  intro d hd
  have hwp := hp d hd
  clear hp hd
  induction p generalizing d with
  | ret a => exact hwp
  | fail e => exact hwp
  | act l x k ih =>
    rw [Proc.attempt]
    refine wp_act (fun t b u ht ha hexec => ?_) fun t e u _ _ hexec => ?_
    · cases hexec
      have hstep := hwp t ht ha
      have hview : (plain : Host Datadir Call Bytes Empty Datadir).view t = t := rfl
      rcases hexec : x.exec t with ⟨e | b, u⟩ <;> simp only [hview, hexec] at hstep ⊢
      · exact hstep
      · exact ⟨hstep.1, ih b u hstep.2⟩
    · cases hexec
  | send m k ih => exact fun t ht ha => ⟨(hwp t ht ha).1, ih t (hwp t ht ha).2⟩

end Careful

variable {file : JsonFile KeypairFile} {supply : Supply}

omit [Primitives] in
/-- The identity that was loaded is the one that is there. -/
theorem loadIdentity_of_same {me : KeypairFile} {d' : Datadir} (h : loadIdentity d = .ok me)
    (hsame : d'.identity = d.identity) : Embernet.loadIdentity d' = .ok me := by
  have hload : Embernet.loadIdentity d = .ok me := context_eq_ok.1 h
  unfold Embernet.loadIdentity at hload ⊢
  rwa [hsame]

omit [Primitives] in
/-- A call that reads, before the rest. -/
theorem solo_ask_bind {α β : Type} {l : Call} {q : ReadM α} {a : α} {f : α → Task β}
    (h : q d = .ok a) : (ask l q >>= f).solo d = (f a).solo d :=
  solo_call_bind (by rw [Op.exec_query, h])

/-- To decrypt writes nothing. -/
theorem careful_decryptEnvelopes (envs : List Envelope) :
    Careful file (decryptEnvelopes envs) := by
  induction envs with
  | nil => exact .pure _
  | cons env envs ih => exact .ask_bind fun _ _ _ _ => ih.bind fun _ => .pure _

/-- **Every tool only posts.** -/
theorem careful_run (tool : Tool) : Careful file (tool.run supply) := by
  cases tool with
  | listChannels => exact .ask_bind fun _ _ _ _ => .ask_bind fun _ _ _ _ => .pure _
  | tailChannel args =>
    refine .except_bind fun chan _ => .ask_bind fun _ _ _ _ => .ask_bind fun _ _ _ _ => ?_
    refine .ask_bind fun _ _ _ _ => .act fun d _ => ⟨posts_readChannelTail _, fun envs _ _ => ?_⟩
    exact (careful_decryptEnvelopes envs).bind fun _ => .pure _
  | postMessage args =>
    refine .except_bind fun chan _ => .ask_bind fun _ _ _ _ => .ask_bind fun d me hd hme => ?_
    -- the identity is the same when the envelope is signed and when it is appended
    have hload (t : Datadir) (ht : t.identity = file) : Embernet.loadIdentity t = .ok me :=
      loadIdentity_of_same hme (ht.trans hd.symm)
    refine .act fun t ht => ⟨posts_signMessageForChannel _ _ _ (hload t ht), ?_⟩
    intro env t' hsign
    have hsender := (exec_signMessageForChannel_ok hsign).2.1
    refine .act fun u hu => ⟨posts_appendMessage (hload u hu) hsender, ?_⟩
    exact fun _ _ _ => .pure _
  | unknown name => exact .fail _

variable [Serde]

/-- One request posts only. -/
theorem careful_serve (raw : Bytes) : Careful file (serve raw supply) := by
  have hrespond (r : JsonRpcResponse Value) : Careful file (respond r) := .emit _
  unfold serve
  cases readRequest raw with
  | error details => exact hrespond _
  | ok request =>
    dsimp only
    cases request.id with
    | none => exact .pure _
    | some id =>
      refine .bind ?_ fun _ => hrespond _
      unfold handleRequest
      split
      · exact .pure _
      split
      · exact .pure _
      split
      · exact .pure _
      split
      · exact .pure _
      split
      · unfold handleToolCall
        cases toolOf request.params with
        | error e => exact .pure _
        | ok tool => exact (careful_run tool).attempt.bind fun _ => .pure _
      · exact .pure _

/-- To serve the whole stream is careful. -/
theorem careful_runStdio (supplies : ℕ → Supply) (stream : Bytes) :
    Careful file (runStdio supplies stream) := by
  fun_induction runStdio supplies stream with
  | case1 => exact .fail _
  | case2 => exact .pure _
  | case3 supplies stream raw rest hread ih => exact (careful_serve raw).bind fun _ => ih

/-- **A client can only post.** Whatever the client sends and whatever the
other processes of the node do, as long as they leave its identity: at any
point of any run, the server's next step leaves every policy, moderation
and saved history as it is. It may bring an index up to date, draw the
first key of a private channel whose owner the identity is, and add one
record to the log of a channel, which verifies and is of the identity, and
which the channel's policy allows at that moment. -/
theorem server_only_posts {beside : Datadir → Datadir → Prop}
    (hbeside : ∀ d d', beside d d' → d'.identity = d.identity) {stream : Bytes}
    {supplies : ℕ → Supply} {evs : List (Option (Event Call Bytes))} {z z' : Datadir × Task Unit}
    (hrun : Run (Serving beside) (d, runStdio supplies stream) evs z) {ev : Event Call Bytes}
    (hstep : Serving beside z (some ev) z') : Posts z.1 z'.1 := by
  have hwp : wp plain posting z.2 (fun _ g => g.identity = d.identity) z.1 := by
    refine hrun.invariant (I := fun z => wp plain posting z.2 (fun _ g => g.identity = d.identity)
      z.1) (fun z ev z' hz hnext => ?_) (careful_runStdio supplies stream d rfl)
    have hmono : Serving posting.rely z ev z' := hnext.mono hbeside
    exact (wp_sessionStep (C := posting) (fun _ i => i.elim) hmono hz).1
  have hmono : Serving posting.rely z (some ev) z' := hstep.mono hbeside
  exact (wp_sessionStep (C := posting) (fun _ i => i.elim) hmono hwp).2 ev rfl

end Posting

/-! ## A post to an open channel -/

section Sample

open Simulated Proc

open Json (num str obj)

attribute [local instance] simulated simulatedSerde

/-- A node with an identity, on which a channel was made. -/
def homeNode : Datadir := { newNode with identity := .value (identity 1) }

/-- A post to the channel, as a client asks for it. -/
def postText : Bytes :=
  requestText 2 "tools/call" (obj [("name", str "post_message"), ("arguments",
    obj [("channel", str "general"), ("title", .null), ("body", str "hello")])])

/-- The request under a header. -/
def postFrame : Frame := headed postText (by decide +kernel)

/-- What the client asks for. -/
def postArgs : PostMessageArgs := ⟨"general", none, "hello", [], []⟩

/-- The node has the channel. -/
theorem getElem?_homeNode : homeNode.channels[general.fullName]? = some newDir :=
  getElem?_put_self _ _ _

/-- Anyone may write to the channel. -/
theorem readChannelPolicy_homeNode : readChannelPolicy general homeNode = .ok .default := by
  rw [readChannelPolicy_of_getElem? getElem?_homeNode]
  simp [readDirPolicy, readPolicyCache, newDir]

/-- The post is appended, and nothing else is changed. -/
theorem solo_postMessage_homeNode : (postMessage postArgs (sampleSupply 0)).solo homeNode =
    ([], .ok (.posted (envelope general 1 hello).id general.fullName (envelope general 1 hello)),
      homeNode.put general.fullName (newDir.appended [] (envelope general 1 hello))) := by
  have hparse : ChannelRef.parse postArgs.channel = .ok general := rfl
  have hexists : ensureChannelLogExists general homeNode = .ok () := by
    simp [ensureChannelLogExists, getElem?_homeNode, newDir, bailIf]
  have hload : loadIdentity homeNode = .ok (identity 1) := rfl
  have hsign : (signMessageForChannel general (identity 1) hello (List.replicate 32 7)
      (List.replicate 24 9)).exec homeNode = (.ok (envelope general 1 hello), homeNode) := by
    rw [signMessageForChannel, Op.exec_query_bind, readChannelPolicy_homeNode]
    dsimp only
    -- the channel is public, so nothing is sealed
    rw [if_neg (by decide), Op.exec_except, sign_identity]
  have happend : (appendMessage general (envelope general 1 hello)).exec homeNode =
      (.ok (envelope general 1 hello).id,
        homeNode.put general.fullName (newDir.appended [] (envelope general 1 hello))) := by
    have hauth : authorizeAppend general (envelope general 1 hello).sender homeNode = .ok () :=
      authorizeAppend_ok.2 ⟨.default, readChannelPolicy_homeNode, rfl⟩
    have hexec := appendMessage_exec_allowed getElem?_homeNode LogOk.empty rfl
      (verify_envelope general 1 hello) hauth
    rw [if_neg (by rw [indexContains_indexOf]; simp)] at hexec
    exact hexec
  rw [postMessage, solo_except_bind hparse, solo_ask_bind hexists, solo_ask_bind hload]
  exact (solo_call_bind hsign).trans (solo_call_bind happend)

/-- The text of the request asks for it. -/
theorem asks_postText : Asks postText (num 2) (.postMessage postArgs) :=
  ⟨_, readRequest_compact rfl, rfl, rfl, rfl, rfl⟩

/-- The step that appends is one of the server's. -/
theorem server_only_posts_hello :
    ∃ evs z ev z', Run (Serving fun _ _ => False)
        (homeNode, runStdio sampleSupply postFrame.bytes) evs z ∧
      Serving (fun _ _ => False) z (some ev) z' ∧ Posts z.1 z'.1 ∧
      z'.1.channels[general.fullName]?.bind Dir.log ≠
        z.1.channels[general.fullName]?.bind Dir.log := by
  have hread : readMcpMessage postFrame.bytes = .ok (some postText, []) := by
    have hframe := readMcpMessage_frame postFrame []
    rwa [List.append_nil] at hframe
  have hend : runStdio (fun n => sampleSupply (n + 1)) [] = pure () :=
    runStdio_of_none (reads_frames [])
  have hsolo : ((runStdio sampleSupply postFrame.bytes).solo homeNode).2.2 =
      homeNode.put general.fullName (newDir.appended [] (envelope general 1 hello)) := by
    rw [runStdio_of_some hread,
      solo_bind_of_ok (solo_serve_of_asks asks_postText solo_postMessage_homeNode), hend]
    rfl
  have hstart : Run (Serving fun _ _ => False)
    (homeNode, runStdio sampleSupply postFrame.bytes) [] _ := .nil _
  obtain ⟨evs, hrun⟩ := exists_run_solo hstart
  rw [hsolo] at hrun
  have hlog : (homeNode.put general.fullName
      (newDir.appended [] (envelope general 1 hello))).channels[general.fullName]?.bind Dir.log ≠
        homeNode.channels[general.fullName]?.bind Dir.log := by
    rw [getElem?_put_self, getElem?_homeNode]
    simp [Dir.appended, newDir, Ndjson.Codec.record]
  obtain ⟨evs', z, ev, z', hrun', hstep, hchanged⟩ := exists_step_of_ne hrun
    (f := fun z : Datadir × Task Unit => z.1.channels[general.fullName]?.bind Dir.log) hlog
  cases ev with
  | none =>
    cases hstep with
    | others hbeside => exact absurd hbeside id
    | receive i => exact i.elim
  | some ev =>
    exact ⟨evs', z, ev, z', hrun', hstep, server_only_posts (fun _ _ h => absurd h id) hrun' hstep,
      hchanged⟩

end Sample

end Mcp

end Embernet
