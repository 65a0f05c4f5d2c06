import Embernet.Model.StoreOp
/-!
# Directories — what an operation writes of one directory

What holds of a directory stays so through an operation that writes none
of the files it depends on. `HasDir path R` says that `R` holds of the
directory at `path`; each operation has one lemma here, which asks that
`R` survives the operation's own writes, and asks it only where the
operation writes there at all. Everything the development says an
operation leaves alone is an instance.
-/

set_option autoImplicit false

namespace Embernet

open Op (Keeps)

/-- `R` holds of the directory at `path`, or of its absence. -/
def DirIs (path : String) (R : Option Dir → Prop) (d : Datadir) : Prop := R d.channels[path]?

/-- There is a directory, and `R` holds of it. -/
def There (R : Dir → Prop) (o : Option Dir) : Prop := ∃ dir, o = some dir ∧ R dir

/-- The directory at `path` is there, and `R` holds of it. -/
def HasDir (path : String) (R : Dir → Prop) : Datadir → Prop := DirIs path (There R)

/-! ## Which files a property depends on -/

section Free

variable (R : Option Dir → Prop)

/-- `R` survives the making of the directory. -/
def MadeFree : Prop := R none → R (some .empty)

/-- A new keyring. -/
def KeysFree : Prop := ∀ o keys, R o → R (o.map fun dir => { dir with channelKeys := keys })

/-- A new policy. -/
def PolicyFree : Prop :=
  ∀ o (log : Dir → Option Bytes) (json : JsonFile ChannelPolicy), R o →
    R (o.map fun dir => { dir with policyLog := log dir, policyJson := json })

/-- New moderation files. -/
def ModerationFree : Prop :=
  ∀ o (log : Dir → Option Bytes) (json : Option ModerationState), R o →
    R (o.map fun dir => { dir with moderationLog := log dir, moderationJson := json })

/-- One more saved history. -/
def SavedFree : Prop :=
  ∀ o head bytes, R o → R (o.map fun dir => { dir with saved := dir.saved.insert head bytes })

/-- A log file that is made where there was none. -/
def TouchFree : Prop := ∀ o, R o → R (o.map fun dir => { dir with log := some (dir.log.getD []) })

/-- An index that was brought up to date. -/
def IndexFree [Primitives] : Prop :=
  ∀ dir log db, dir.log = some log → ensureIndex log dir.index = .ok db → R (some dir) →
    R (some { dir with index := db })

/-- Another log and another index. -/
def LogFree : Prop :=
  ∀ o (log : Dir → Option Bytes) (index : Dir → Index), R o →
    R (o.map fun dir => { dir with log := log dir, index := index dir })

variable {R}

end Free

namespace There

variable {R : Dir → Prop}

/-- It holds of a directory that is there exactly if the property does. -/
theorem of_some {dir : Dir} : There R (some dir) ↔ R dir := by
  simp [There]

/-- A property of a directory that is there survives what keeps the
property. -/
theorem map {f : Dir → Dir} {o : Option Dir} (h : There R o) (hf : ∀ dir, R dir → R (f dir)) :
    There R (o.map f) := by
  obtain ⟨dir, rfl, hR⟩ := h
  exact ⟨f dir, rfl, hf dir hR⟩

/-- To make it anew is no change of it. -/
theorem made : MadeFree (There R) := by
  rintro ⟨dir, hdir, -⟩
  cases hdir

end There

/-! ## Writing -/

variable {path : String} {R : Option Dir → Prop} {chan : ChannelRef} {α : Type}

/-- One path is written, and no other. -/
theorem getElem?_modifyDir (path' : String) (f : Dir → Dir) (d : Datadir) :
    ((modifyDir path' f).exec d).2.channels[path]? =
      if path' = path then d.channels[path]?.map f else d.channels[path]? := by
  rw [modifyDir, Op.exec_modify]
  simp only [Std.ExtTreeMap.getElem?_modify, Std.LawfulEqCmp.compare_eq_iff_eq]
  split
  · rename_i h
    rw [h]
  · rfl

/-- A write keeps what it does not write. -/
theorem keeps_modifyDir {path' : String} {f : Dir → Dir}
    (hf : path' = path → ∀ o, R o → R (o.map f)) : Keeps (DirIs path R) (modifyDir path' f) := by
  intro d hd
  rw [DirIs, getElem?_modifyDir]
  split
  · exact hf ‹_› _ hd
  · exact hd

/-- A directory is made where there is none. -/
theorem keeps_ensureDir {path' : String}
    (hmade : path ∈ pathPrefixes [] path'.toList → MadeFree R) :
    Keeps (DirIs path R) (ensureDir path') := by
  intro d hd
  rw [DirIs, ensureDir, Op.exec_modify]
  simp only [getElem?_ensureDirs]
  rw [DirIs] at hd
  cases hdir : d.channels[path]? with
  | some dir =>
    rw [hdir] at hd
    simpa using hd
  | none =>
    rw [hdir] at hd
    simp only [Option.none_or]
    split
    · exact hmade ‹_› hd
    · exact hd

/-- The result of an operation is no part of what it does. -/
theorem keeps_ignore {x : StoreM α} (hx : Keeps (DirIs path R) x) :
    Keeps (DirIs path R) (ignore x) :=
  .bind hx fun _ => .pure _

/-- Making a channel makes directories, and a log. -/
theorem keeps_createChannel (hmade : path ∈ pathPrefixes [] chan.fullName.toList → MadeFree R)
    (ht : chan.fullName = path → TouchFree R) : Keeps (DirIs path R) (createChannel chan) :=
  .bind (keeps_ensureDir hmade) fun _ => keeps_modifyDir ht

/-- A keyring is saved in its channel. -/
theorem keeps_saveKeys (hk : chan.fullName = path → KeysFree R) (keys : List ChannelKey) :
    Keeps (DirIs path R) (saveKeys chan.fullName keys) :=
  keeps_modifyDir fun hpath o => hk hpath o _

variable [Primitives]

/-! ### Keys and messages -/

/-- Making a key writes the keyring. -/
theorem keeps_generateChannelKey (hk : chan.fullName = path → KeysFree R) (raw : Bytes) :
    Keeps (DirIs path R) (generateChannelKey chan.fullName raw) :=
  .bind (.query _) fun _ => .bind (.query _) fun _ => .bind (keeps_saveKeys hk _) fun _ => .pure _

/-- Accepting a key writes the keyring. -/
theorem keeps_acceptKeyOffers (hk : chan.fullName = path → KeysFree R) (recipient : KeypairFile)
    (offers : List KeyOffer) :
    Keeps (DirIs path R) (acceptKeyOffers chan.fullName recipient offers) :=
  .bind (.query _) fun _ => .bind (.query _) fun _ => .bind (.except _) fun _ =>
    .ite (.bind (keeps_saveKeys hk _) fun _ => .pure _) (.pure _)

/-- A read through the index writes the index that the read made
current. -/
theorem keeps_readIndexed (hi : chan.fullName = path → IndexFree R)
    (f : Bytes → Index → Except Error α) : Keeps (DirIs path R) (readIndexed chan f) := by
  refine .query_bind fun d ⟨dir, log⟩ hd hopen => ?_
  obtain ⟨hdir, hlog⟩ := openLog_ok.1 hopen
  rw [Op.exec_except_bind]
  cases hensure : ensureIndex log dir.index with
  | error e => exact hd
  | ok db =>
    simp only
    rw [Op.exec_bind_of_ok (exec_modifyDir hdir), Op.exec_except, DirIs, getElem?_put]
    split
    · rename_i hpath
      rw [DirIs, ← hpath, hdir] at hd
      exact hi hpath dir log db hlog hensure hd
    · exact hd

/-- An append writes the log and the index. -/
theorem keeps_appendMessage (hl : chan.fullName = path → LogFree R) (env : Envelope) :
    Keeps (DirIs path R) (appendMessage chan env) :=
  have hlog : chan.fullName = path → ∀ (log : Option Bytes) (o : Option Dir), R o →
      R (o.map fun dir => { dir with log := log }) := fun h log o =>
    hl h o (fun _ => log) Dir.index
  have hindex : chan.fullName = path → ∀ (db : Index) (o : Option Dir), R o →
      R (o.map fun dir => { dir with index := db }) := fun h db o =>
    hl h o Dir.log fun _ => db
  .bind .bailIf fun _ => .bind (.except _) fun _ => .bind (.query _) fun _ =>
    .bind (keeps_modifyDir fun h => hlog h _) fun _ => .bind (.query _) fun _ =>
      .bind (.except _) fun _ => .bind (keeps_modifyDir fun h => hindex h _) fun _ =>
        .ite (.pure _) (.bind (keeps_modifyDir fun h => hlog h _) fun _ =>
          .bind (.except _) fun _ => .bind (keeps_modifyDir fun h => hindex h _) fun _ => .pure _)

/-- A read of the tail writes the index. -/
theorem keeps_readChannelTail (hi : chan.fullName = path → IndexFree R) (n : ℕ)
    (includeTombstoned : Bool) :
    Keeps (DirIs path R) (readChannelTail chan n includeTombstoned) :=
  .ite (.pure _) (.ite (.bind (.pure _) fun _ => keeps_readIndexed hi _)
    (.bind (.query _) fun _ => keeps_readIndexed hi _))

/-- A signing writes the keyring at most. -/
theorem keeps_signMessageForChannel (hk : chan.fullName = path → KeysFree R) (signer : KeypairFile)
    (message : Message) (raw nonce : Bytes) :
    Keeps (DirIs path R) (signMessageForChannel chan signer message raw nonce) :=
  have sign : Keeps (DirIs path R) (do
      let encrypted ← encryptMessage chan.fullName nonce message
      (Envelope.sign signer chan.fullName encrypted : Except Error Envelope) : StoreM Envelope) :=
    .bind (.query _) fun _ => .except _
  .bind (.query _) fun _ => .ite
    (.bind (.query _) fun _ => .ite (.bind (keeps_generateChannelKey hk _) fun _ => sign) sign)
    (.except _)

/-! ### Histories -/

/-- An action writes the two policy files. -/
theorem keeps_appendPolicyAction (hp : chan.fullName = path → PolicyFree R) (signer : KeypairFile)
    (now now' : Int64) (action : PolicyAction) :
    Keeps (DirIs path R) (appendPolicyAction chan signer now now' action) :=
  .bind (.query _) fun _ => .bind (.except _) fun _ => .ite
    (.bind (.except _) fun _ => .bind (.except _) fun _ => .bind (.except _) fun _ =>
      .bind (keeps_modifyDir fun h o => hp h o _ _) fun _ => .pure _)
    (.bind (.except _) fun _ => .bind (.except _) fun _ => .bind (.except _) fun _ =>
      .bind (keeps_modifyDir fun h o => hp h o _ _) fun _ => .pure _)

/-- And so does a policy that is taken in. -/
theorem keeps_appendRemotePolicyHistory (hp : chan.fullName = path → PolicyFree R)
    (remote : List PolicyEvent) :
    Keeps (DirIs path R) (appendRemotePolicyHistory chan remote) :=
  .bind (.query _) fun _ => .bind (.except _) fun _ => .bind (.except _) fun _ =>
    .bind .bailIf fun _ => .bind (keeps_modifyDir fun h o => hp h o _ _) fun _ => .pure _

/-- Rebuilding writes one of the two. -/
theorem keeps_rebuildPolicyCache (hp : chan.fullName = path → PolicyFree R) :
    Keeps (DirIs path R) (rebuildPolicyCache chan) :=
  .bind (.query _) fun _ => .bind (.except _) fun _ => .bind (.except _) fun _ =>
    .bind (keeps_modifyDir fun h o => hp h o Dir.policyLog _) fun _ => .pure _

/-- A fork is saved in its own directory. -/
theorem keeps_savePolicyConflict
    (hmade : path ∈ pathPrefixes [] (policyConflictDir chan).toList → MadeFree R)
    (hs : policyConflictDir chan = path → SavedFree R)
    (events : List PolicyEvent) : Keeps (DirIs path R) (savePolicyConflict chan events) :=
  .bind (.except _) fun _ => .bind .orBail fun _ => .bind (keeps_ensureDir hmade) fun _ =>
    .bind (keeps_modifyDir fun h o => hs h o _ _) fun _ => .pure _

/-- A resolution writes the policy files, and saves what was there. -/
theorem keeps_resolvePolicyConflict
    (hmade : path ∈ pathPrefixes [] (policyConflictDir chan).toList → MadeFree R)
    (hp : chan.fullName = path → PolicyFree R)
    (hs : policyConflictDir chan = path → SavedFree R) (head : String) :
    Keeps (DirIs path R) (resolvePolicyConflict chan head) :=
  .bind (.except _) fun _ => .bind (.query _) fun _ => .bind .bailIf fun _ =>
    .bind (.except _) fun _ => .bind (.query _) fun _ => .bind (.except _) fun _ => .ite
      (.bind (keeps_savePolicyConflict hmade hs _) fun _ =>
        .bind (keeps_modifyDir fun h o => hp h o _ _) fun _ => .pure _)
      (.bind (keeps_modifyDir fun h o => hp h o _ _) fun _ => .pure _)

/-- A moderation writes the two moderation files. -/
theorem keeps_appendModerationAction (hm : chan.fullName = path → ModerationFree R)
    (signer : KeypairFile) (now : Int64) (action : ModerationAction) :
    Keeps (DirIs path R) (appendModerationAction chan signer now action) :=
  .bind (.query _) fun _ => .bind (.query _) fun _ => .bind (.query _) fun _ =>
    .bind (.except _) fun _ => .bind (.query _) fun _ =>
      .bind (keeps_modifyDir fun h o => hm h o _ _) fun _ => .pure _

/-- And so does one that is taken in. -/
theorem keeps_appendRemoteModerationHistory (hm : chan.fullName = path → ModerationFree R)
    (remote : List ModerationEvent) :
    Keeps (DirIs path R) (appendRemoteModerationHistory chan remote) :=
  .bind (.query _) fun _ => .bind (.query _) fun _ => .bind (.query _) fun _ =>
    .bind .bailIf fun _ => .bind (keeps_modifyDir fun h o => hm h o _ _) fun _ => .pure _

/-- Its fork is saved as the policy's is. -/
theorem keeps_saveModerationConflict
    (hmade : path ∈ pathPrefixes [] (moderationConflictDir chan).toList → MadeFree R)
    (hs : moderationConflictDir chan = path → SavedFree R)
    (events : List ModerationEvent) : Keeps (DirIs path R) (saveModerationConflict chan events) :=
  .bind (.query _) fun _ => .bind .orBail fun _ => .bind (keeps_ensureDir hmade) fun _ =>
    .bind (keeps_modifyDir fun h o => hs h o _ _) fun _ => .pure _

/-- And it is resolved to the same way. -/
theorem keeps_resolveModerationConflict
    (hmade : path ∈ pathPrefixes [] (moderationConflictDir chan).toList → MadeFree R)
    (hm : chan.fullName = path → ModerationFree R)
    (hs : moderationConflictDir chan = path → SavedFree R) (head : String) :
    Keeps (DirIs path R) (resolveModerationConflict chan head) :=
  .bind (.except _) fun _ => .bind (.query _) fun _ => .bind .bailIf fun _ =>
    .bind (.query _) fun _ => .bind (.query _) fun _ => .bind (.query _) fun _ => .ite
      (.bind (keeps_saveModerationConflict hmade hs _) fun _ =>
        .bind (keeps_modifyDir fun h o => hm h o _ _) fun _ => .pure _)
      (.bind (keeps_modifyDir fun h o => hm h o _ _) fun _ => .pure _)

/-! ### Rotating a key before an action -/

/-- An action that may make a key before it writes the keyring too. -/
theorem keeps_rotateFirst (hp : chan.fullName = path → PolicyFree R)
    (hk : chan.fullName = path → KeysFree R) (c : Prop) [Decidable c] (raw : Bytes)
    (signer : KeypairFile) (now now' : Int64) (action : PolicyAction) :
    Keeps (DirIs path R) (do
      if c then
        let _ ← generateChannelKey chan.fullName raw
      appendPolicyAction chan signer now now' action : StoreM ChannelPolicy) :=
  .ite (.bind (keeps_generateChannelKey hk raw) fun _ =>
    keeps_appendPolicyAction hp signer now now' action)
    (keeps_appendPolicyAction hp signer now now' action)

/-! ### Every operation -/

omit [Primitives] in
/-- What an operation may write: a directory it makes, or files. -/
inductive Part
  | made
  | keys
  | policy
  | moderation
  | policyFork
  | moderationFork
  | touch
  | index
  | log
  deriving DecidableEq

/-- `R` survives the writing of a part. -/
def Part.Free (chan : ChannelRef) (path : String) (R : Option Dir → Prop) : Part → Prop
  | made => MadeFree R
  | keys => chan.fullName = path → KeysFree R
  | policy => chan.fullName = path → PolicyFree R
  | moderation => chan.fullName = path → ModerationFree R
  | policyFork => policyConflictDir chan = path → SavedFree R
  | moderationFork => moderationConflictDir chan = path → SavedFree R
  | touch => chan.fullName = path → TouchFree R
  | index => chan.fullName = path → IndexFree R
  | log => chan.fullName = path → LogFree R

omit [Primitives] in
/-- The parts that an operation writes. -/
def StoreOp.parts : StoreOp → List Part
  | .createChannel => [.made, .touch]
  | .restrictChannel .. | .grantRole .. => [.policy]
  | .revokeRole .. | .transferOwnership .. | .setChannelVisibility .. => [.keys, .policy]
  | .appendRemotePolicyHistory _ | .rebuildPolicyCache => [.policy]
  | .savePolicyConflict _ => [.made, .policyFork]
  | .resolvePolicyConflict _ => [.made, .policyFork, .policy]
  | .tombstoneMessage .. => [.index, .moderation]
  | .restoreMessage .. | .appendRemoteModerationHistory _ => [.moderation]
  | .saveModerationConflict _ => [.made, .moderationFork]
  | .resolveModerationConflict _ => [.made, .moderationFork, .moderation]
  | .appendMessage _ => [.log]
  | .chunkSummaries | .chunkIds _ | .readMessageById _ | .readChannelTail .. => [.index]
  | .generateChannelKey _ | .acceptKeyOffers .. | .signMessageForChannel .. => [.keys]

omit [Primitives] in
/-- Only an append writes the log. -/
theorem log_mem_parts {op : StoreOp} (h : Part.log ∈ op.parts) :
    ∃ env, op = .appendMessage env := by
  cases op with
  | appendMessage env => exact ⟨env, rfl⟩
  | _ => simp [StoreOp.parts] at h

/-- **An operation keeps what survives the parts it writes.** -/
theorem keeps_storeOp {op : StoreOp} (h : ∀ part ∈ op.parts, part.Free chan path R) :
    Keeps (DirIs path R) (op.op chan) := by
  replace h := List.forall_iff_forall_mem.2 h
  cases op with
  | createChannel =>
    obtain ⟨hmade, ht⟩ := h
    exact keeps_createChannel (fun _ => hmade) ht
  | restrictChannel => exact keeps_ignore (keeps_appendPolicyAction h _ _ _ _)
  | grantRole => exact keeps_ignore (keeps_appendPolicyAction h _ _ _ _)
  | revokeRole =>
    obtain ⟨hk, hp⟩ := h
    exact keeps_ignore (.bind (.query _) fun _ => keeps_rotateFirst hp hk _ _ _ _ _ _)
  | transferOwnership =>
    obtain ⟨hk, hp⟩ := h
    exact keeps_ignore (.bind (.except _) fun _ => .bind (.query _) fun _ => .bind .bailIf fun _ =>
      keeps_rotateFirst hp hk _ _ _ _ _ _)
  | setChannelVisibility =>
    obtain ⟨hk, hp⟩ := h
    exact keeps_ignore (.bind (.query _) fun _ => .bind .bailIf fun _ => .bind .bailIf fun _ =>
      keeps_rotateFirst hp hk _ _ _ _ _ _)
  | appendRemotePolicyHistory => exact keeps_ignore (keeps_appendRemotePolicyHistory h _)
  | rebuildPolicyCache => exact keeps_ignore (keeps_rebuildPolicyCache h)
  | savePolicyConflict =>
    obtain ⟨hmade, hps⟩ := h
    exact keeps_ignore (keeps_savePolicyConflict (fun _ => hmade) hps _)
  | resolvePolicyConflict =>
    obtain ⟨hmade, hps, hp⟩ := h
    exact keeps_ignore (keeps_resolvePolicyConflict (fun _ => hmade) hp hps _)
  | tombstoneMessage =>
    obtain ⟨hi, hm⟩ := h
    exact keeps_ignore (.bind (keeps_readIndexed hi _) fun _ =>
      keeps_appendModerationAction hm _ _ _)
  | restoreMessage => exact keeps_ignore (keeps_appendModerationAction h _ _ _)
  | appendRemoteModerationHistory => exact keeps_ignore (keeps_appendRemoteModerationHistory h _)
  | saveModerationConflict =>
    obtain ⟨hmade, hms⟩ := h
    exact keeps_ignore (keeps_saveModerationConflict (fun _ => hmade) hms _)
  | resolveModerationConflict =>
    obtain ⟨hmade, hms, hm⟩ := h
    exact keeps_ignore (keeps_resolveModerationConflict (fun _ => hmade) hm hms _)
  | appendMessage env => exact keeps_ignore (keeps_appendMessage h env)
  | chunkSummaries => exact keeps_ignore (keeps_readIndexed h _)
  | chunkIds => exact keeps_ignore (keeps_readIndexed h _)
  | readMessageById => exact keeps_ignore (keeps_readIndexed h _)
  | readChannelTail => exact keeps_ignore (keeps_readChannelTail h _ _)
  | generateChannelKey => exact keeps_ignore (keeps_generateChannelKey h _)
  | acceptKeyOffers => exact keeps_ignore (keeps_acceptKeyOffers h _ _)
  | signMessageForChannel => exact keeps_ignore (keeps_signMessageForChannel h _ _ _ _)

/-- **What is said of the log and its index**, of whatever is in the other
files, survives every operation but an append. -/
theorem keeps_of_log_index {R : Dir → Prop} {op : StoreOp}
    (hfiles : ∀ dir dir', dir'.log = dir.log → dir'.index = dir.index → R dir → R dir')
    (ht : TouchFree (There R)) (hi : IndexFree (There R)) (hop : ∀ env, op ≠ .appendMessage env) :
    Keeps (HasDir chan.fullName R) (op.op chan) := by
  refine keeps_storeOp fun part hpart => ?_
  -- no file but the log and its index bears on it
  cases part with
  | made => exact .made
  | keys => exact fun _ _ _ h => h.map fun dir => hfiles dir _ rfl rfl
  | policy => exact fun _ _ _ _ h => h.map fun dir => hfiles dir _ rfl rfl
  | moderation => exact fun _ _ _ _ h => h.map fun dir => hfiles dir _ rfl rfl
  | policyFork => exact fun _ _ _ _ h => h.map fun dir => hfiles dir _ rfl rfl
  | moderationFork => exact fun _ _ _ _ h => h.map fun dir => hfiles dir _ rfl rfl
  | touch => exact fun _ => ht
  | index => exact fun _ => hi
  | log =>
    obtain ⟨env, rfl⟩ := log_mem_parts hpart
    exact absurd rfl (hop env)

end Embernet
