import Embernet.Store.Forks
/-!
# Isolation — what the operations on one channel do to another

The directory of a channel is also where the store keeps directories of
its own, and a channel may be called what such a directory is called.
What anyone can ask of a channel is put in one record here,
`channelView`. It depends on the files of three directories, and the
operations on another channel write none of these files, unless the other
channel is the channel's own directory of saved forks, or the first
channel was not there and its directory is made on the way.
-/

set_option autoImplicit false

namespace Embernet

open Primitives
open Op (Keeps)

/-! ## What can be asked of a channel -/

/-- Everything a reader can ask of a channel. -/
structure ChannelView where
  listed : Bool
  summaries : Except Error (List ChunkSummary)
  chunk : ℕ → Except Error (List String)
  message : String → Except Error Envelope
  tail : ℕ → Bool → Except Error (List Envelope)
  tailDecrypted : ℕ → Bool → Except Error (List Envelope)
  policyHistory : Except Error (List PolicyEvent)
  policy : Except Error ChannelPolicy
  moderationHistory : Except Error (List ModerationEvent)
  moderation : Except Error ModerationState
  policyConflicts : Except Error (List String)
  moderationConflicts : Except Error (List String)
  savedPolicy : String → Except Error (List PolicyEvent)
  savedModeration : String → Except Error (List ModerationEvent)
  keys : Except Error (List ChannelKey)
  currentKey : Except Error ChannelKey

/-- What the calls that read a channel return. -/
def channelView [Primitives] (chan : ChannelRef) (d : Datadir) : ChannelView where
  listed := (listChannels d).contains chan.fullName
  summaries := ((chunkSummaries chan).exec d).1
  chunk i := ((chunkIds chan i).exec d).1
  message id := ((readMessageById chan id).exec d).1
  tail n includeTombstoned := ((readChannelTail chan n includeTombstoned).exec d).1
  tailDecrypted n includeTombstoned :=
    ((readChannelTailDecrypted chan n includeTombstoned).exec d).1
  policyHistory := readPolicyHistory chan d
  policy := readChannelPolicy chan d
  moderationHistory := readModerationHistory chan d
  moderation := moderationState chan d
  policyConflicts := listPolicyConflicts chan d
  moderationConflicts := listModerationConflicts chan d
  savedPolicy head := readSaved readPolicyEvent (policyConflictDir chan) head d
  savedModeration head := readSaved readModerationEvent (moderationConflictDir chan) head d
  keys := loadKeys chan.fullName d
  currentKey := currentChannelKey chan.fullName d

/-! ## What the answers depend on -/

/-- The files of a directory that are its own channel's: all but the
histories saved there. -/
def Dir.own (dir : Dir) : Dir := { dir with saved := ∅ }

/-- Two nodes list the same histories saved in a directory, and hold the
same under each head. -/
structure SavedAlike (path : String) (d d' : Datadir) : Prop where
  list : listSaved path d' = listSaved path d
  saved : d'.savedAt path = d.savedAt path

/-- Two nodes hold the same files of a channel, and the same saved forks
of it. -/
structure Alike (chan : ChannelRef) (d d' : Datadir) : Prop where
  own : d'.channels[chan.fullName]?.map Dir.own = d.channels[chan.fullName]?.map Dir.own
  policyForks : SavedAlike (policyConflictDir chan) d d'
  moderationForks : SavedAlike (moderationConflictDir chan) d d'

section Reading

variable {chan : ChannelRef} {d d' : Datadir}

/-- A saved fork is read from its own directory. -/
theorem SavedAlike.readSaved {α : Type} {read : Bytes → Option α} {path head : String}
    (h : SavedAlike path d d') :
    Embernet.readSaved read path head d' = Embernet.readSaved read path head d := by
  have hsaved := congrFun h.saved head
  rw [Datadir.savedAt, Datadir.savedAt] at hsaved
  rw [Embernet.readSaved, Embernet.readSaved, hsaved]

/-- A channel is listed if it has a log. -/
theorem mem_listChannels :
    chan.fullName ∈ listChannels d ↔
      ∃ dir, d.channels[chan.fullName]? = some dir ∧ dir.log.isSome = true := by
  simp only [listChannels, List.mem_map, List.mem_filter, Prod.exists,
    Std.ExtTreeMap.mem_toList_iff_getElem?_eq_some, Bool.and_eq_true]
  constructor
  · rintro ⟨name, dir, ⟨hdir, hlog, -⟩, rfl⟩
    exact ⟨dir, hdir, hlog⟩
  · rintro ⟨dir, hdir, hlog⟩
    exact ⟨chan.fullName, dir, ⟨hdir, hlog, chan.valid⟩, rfl⟩

/-- Neither has the channel, or both do, and their directories differ in
what is saved there. -/
theorem Alike.dirs (h : Alike chan d d') :
    d.channels[chan.fullName]? = none ∧ d'.channels[chan.fullName]? = none ∨
      ∃ dir saved, d.channels[chan.fullName]? = some dir ∧
        d'.channels[chan.fullName]? = some { dir with saved := saved } := by
  have hown := h.own
  cases hdir : d.channels[chan.fullName]? with
  | none =>
    rw [hdir, Option.map_none, Option.map_eq_none_iff] at hown
    exact .inl ⟨rfl, hown⟩
  | some dir =>
    rw [hdir, Option.map_some, Option.map_eq_some_iff] at hown
    obtain ⟨dir', hdir', heq⟩ := hown
    refine .inr ⟨dir, dir'.saved, rfl, ?_⟩
    obtain ⟨⟩ := dir
    obtain ⟨⟩ := dir'
    simp only [Dir.own, Dir.mk.injEq, and_true] at heq
    obtain ⟨rfl, rfl, rfl, rfl, rfl, rfl, rfl⟩ := heq
    exact hdir'

namespace Alike

/-- Whether a channel is listed depends on its own directory. -/
theorem listed (h : Alike chan d d') :
    chan.fullName ∈ listChannels d' ↔ chan.fullName ∈ listChannels d := by
  rw [mem_listChannels, mem_listChannels]
  rcases h.dirs with ⟨hdir, hdir'⟩ | ⟨dir, saved, hdir, hdir'⟩
  · rw [hdir, hdir']
  · rw [hdir, hdir']
    simp

/-- The keyring depends on the channel's own directory. -/
theorem loadKeys (h : Alike chan d d') :
    Embernet.loadKeys chan.fullName d' = Embernet.loadKeys chan.fullName d := by
  rw [Embernet.loadKeys, Embernet.loadKeys]
  rcases h.dirs with ⟨hdir, hdir'⟩ | ⟨dir, saved, hdir, hdir'⟩
  · rw [hdir, hdir']
  · rw [hdir, hdir']

variable [Primitives]

/-- The policy history depends on it too. -/
theorem readPolicyHistory (h : Alike chan d d') :
    Embernet.readPolicyHistory chan d' = Embernet.readPolicyHistory chan d := by
  rcases h.dirs with ⟨hdir, hdir'⟩ | ⟨dir, saved, hdir, hdir'⟩
  · simp only [Embernet.readPolicyHistory, Query.bind_apply, openDir, hdir, hdir']
    rfl
  · rw [readPolicyHistory_of_getElem? hdir, readPolicyHistory_of_getElem? hdir']
    rfl

/-- The policy in force depends on it. -/
theorem readChannelPolicy (h : Alike chan d d') :
    Embernet.readChannelPolicy chan d' = Embernet.readChannelPolicy chan d := by
  rcases h.dirs with ⟨hdir, hdir'⟩ | ⟨dir, saved, hdir, hdir'⟩
  · simp only [Embernet.readChannelPolicy, hdir, hdir']
  · rw [readChannelPolicy_of_getElem? hdir, readChannelPolicy_of_getElem? hdir']
    rfl

/-- What a moderation derives to. -/
theorem deriveModeration (h : Alike chan d d') (events : List ModerationEvent) :
    Embernet.deriveModeration chan events d' = Embernet.deriveModeration chan events d := by
  rw [Embernet.deriveModeration, Query.bind_apply, Query.bind_apply, h.readPolicyHistory]
  rfl

/-- The moderation history depends on it too. -/
theorem readModerationHistory (h : Alike chan d d') :
    Embernet.readModerationHistory chan d' = Embernet.readModerationHistory chan d := by
  have hlog (dir : Dir) : readModerationLog chan dir d' = readModerationLog chan dir d := by
    rw [readModerationLog]
    cases dir.moderationLog with
    | none => rfl
    | some bytes =>
      simp only [Query.bind_apply, h.deriveModeration]
      rfl
  simp only [Embernet.readModerationHistory, Query.bind_apply, openDir, hlog]
  rcases h.dirs with ⟨hdir, hdir'⟩ | ⟨dir, saved, hdir, hdir'⟩
  · rw [hdir, hdir']
  · rw [hdir, hdir']
    rfl

/-- What is hidden. -/
theorem moderationState (h : Alike chan d d') :
    Embernet.moderationState chan d' = Embernet.moderationState chan d := by
  simp only [Embernet.moderationState, Query.bind_apply, h.readModerationHistory,
    h.deriveModeration]

end Alike

variable [Primitives]

/-- What a read through the index returns. -/
theorem result_readIndexed {α : Type} (f : Bytes → Index → Except Error α) :
    ((readIndexed chan f).exec d).1 =
      (openLog chan d >>= fun (dir, log) => ensureIndex log dir.index >>= f log) := by
  rw [readIndexed, Op.exec_query_bind]
  cases hopen : openLog chan d with
  | error e => rfl
  | ok opened =>
    obtain ⟨dir, log⟩ := opened
    simp only [Op.exec_except_bind]
    cases hensure : ensureIndex log dir.index with
    | error e =>
      simp only [bind, Except.bind, hensure]
    | ok db =>
      simp only [bind, Except.bind, hensure]
      rfl

namespace Alike

/-- And what is read through its index. -/
theorem readIndexed (h : Alike chan d d') {α : Type} (f : Bytes → Index → Except Error α) :
    ((Embernet.readIndexed chan f).exec d').1 = ((Embernet.readIndexed chan f).exec d).1 := by
  rw [result_readIndexed, result_readIndexed]
  rcases h.dirs with ⟨hdir, hdir'⟩ | ⟨dir, saved, hdir, hdir'⟩
  · simp only [openLog, openDir, hdir, hdir']
  · simp only [openLog, openDir, hdir, hdir']
    obtain ⟨_ | log⟩ := dir
    · rfl
    · rfl

/-- What a tail shows is the channel's. -/
theorem readChannelTail (h : Alike chan d d') (n : ℕ) (includeTombstoned : Bool) :
    ((Embernet.readChannelTail chan n includeTombstoned).exec d').1 =
      ((Embernet.readChannelTail chan n includeTombstoned).exec d).1 := by
  rw [Embernet.readChannelTail]
  split
  · rfl
  · cases includeTombstoned with
    | true => exact h.readIndexed _
    | false =>
      simp only [Bool.false_eq_true, if_false, Op.exec_query_bind, h.moderationState]
      cases Embernet.moderationState chan d with
      | error e => rfl
      | ok state => exact h.readIndexed _

end Alike

/-- A record that a tail shows is one of the channel. -/
theorem channel_of_mem_readTail {log : Bytes} {hidden : String → Bool} {n : ℕ}
    {locations : List (String × ℕ × ℕ)} {envs : List Envelope}
    (h : readTail log chan hidden n locations = .ok envs) {env : Envelope} (henv : env ∈ envs) :
    env.channel = chan.fullName := by
  induction locations generalizing n envs with
  | nil =>
    have : envs = [] := by
      cases n <;> cases h <;> rfl
    rw [this] at henv
    cases henv
  | cons location rest ih =>
    obtain ⟨id, offset, length⟩ := location
    cases n with
    | zero =>
      cases h
      cases henv
    | succ n =>
      rw [readTail] at h
      split at h
      · exact ih h henv
      · simp only [bind_eq_ok, pure_eq_ok] at h
        obtain ⟨first, hfirst, others, hothers, rfl⟩ := h
        rcases List.mem_cons.1 henv with rfl | henv
        · simp only [readIndexedEnvelope, bind_eq_ok, bailIf_eq_ok, pure_eq_ok, not_or,
            not_not] at hfirst
          obtain ⟨-, -, -, -, read, -, -, ⟨-, hchannel⟩, -, -, rfl⟩ := hfirst
          exact hchannel
        · exact ih hothers henv

/-- A tail is of records of the channel. -/
theorem channel_of_mem_readChannelTail {n : ℕ} {includeTombstoned : Bool} {envs : List Envelope}
    (h : ((readChannelTail chan n includeTombstoned).exec d).1 = .ok envs) {env : Envelope}
    (henv : env ∈ envs) : env.channel = chan.fullName := by
  have hindexed (hidden : String → Bool)
      (h : ((readIndexed chan (tailOf chan hidden n)).exec d).1 = .ok envs) :
      env.channel = chan.fullName := by
    rw [result_readIndexed] at h
    simp only [bind_eq_ok, Prod.exists, tailOf, pure_eq_ok] at h
    obtain ⟨dir, log, -, db, -, reversed, hreversed, rfl⟩ := h
    exact channel_of_mem_readTail hreversed (List.mem_reverse.1 henv)
  rw [readChannelTail] at h
  split at h
  · cases h
    cases henv
  · cases includeTombstoned with
    | true => exact hindexed _ h
    | false =>
      simp only [Bool.false_eq_true, if_false, Op.exec_query_bind] at h
      cases hstate : moderationState chan d with
      | error e =>
        rw [hstate] at h
        cases h
      | ok state =>
        rw [hstate] at h
        exact hindexed _ h

/-- Reading a tail leaves the keys. -/
theorem loadKeys_readChannelTail (chan : ChannelRef) (n : ℕ) (includeTombstoned : Bool)
    (d : Datadir) :
    loadKeys chan.fullName ((readChannelTail chan n includeTombstoned).exec d).2 =
      loadKeys chan.fullName d := by
  have hkeep : Keeps (DirIs chan.fullName fun o =>
      o.map Dir.channelKeys = d.channels[chan.fullName]?.map Dir.channelKeys)
      (readChannelTail chan n includeTombstoned) :=
    keeps_readChannelTail (fun _ dir log db _ _ h => h) n includeTombstoned
  have hkeys := hkeep d rfl
  rw [DirIs] at hkeys
  rw [loadKeys, loadKeys]
  cases hdir : d.channels[chan.fullName]? with
  | none =>
    rw [hdir, Option.map_none, Option.map_eq_none_iff] at hkeys
    rw [hkeys]
  | some dir =>
    rw [hdir, Option.map_some, Option.map_eq_some_iff] at hkeys
    obtain ⟨dir', hdir', heq⟩ := hkeys
    simp only [hdir', heq]

/-- An envelope of the channel decrypts to the same under the same keys. -/
theorem decryptEnvelope_congr (hkeys : loadKeys chan.fullName d' = loadKeys chan.fullName d)
    {env : Envelope} (henv : env.channel = chan.fullName) :
    decryptEnvelope env d' = decryptEnvelope env d := by
  rw [decryptEnvelope]
  cases env.msg.body with
  | text text => rfl
  | encrypted keyId nonce ciphertext =>
    simp only [Query.bind_apply, Query.orBail_apply, Query.bailIf_apply, Query.lift_apply,
      Query.pure_apply, henv, hkeys]

/-- A decrypted tail is the tail with each record decrypted. -/
theorem result_readChannelTailDecrypted (n : ℕ) (includeTombstoned : Bool) (d : Datadir) :
    ((readChannelTailDecrypted chan n includeTombstoned).exec d).1 =
      (((readChannelTail chan n includeTombstoned).exec d).1 >>= fun envs =>
        envs.mapM fun env => decryptEnvelope env d) := by
  have hkeys := loadKeys_readChannelTail chan n includeTombstoned d
  have hchannel (envs : List Envelope)
      (h : ((readChannelTail chan n includeTombstoned).exec d).1 = .ok envs) (env : Envelope)
      (henv : env ∈ envs) : env.channel = chan.fullName := channel_of_mem_readChannelTail h henv
  rw [readChannelTailDecrypted, Op.exec_bind]
  rcases hread : (readChannelTail chan n includeTombstoned).exec d with ⟨e | envs, d₁⟩
  · rfl
  · simp only [Op.exec_query, Query.mapM_apply, bind, Except.bind]
    refine mapM_congr fun env henv => ?_
    rw [hread] at hkeys hchannel
    exact decryptEnvelope_congr hkeys (hchannel envs rfl env henv)

namespace Alike

/-- A decrypted tail depends on nothing else either. -/
theorem readChannelTailDecrypted (h : Alike chan d d') (n : ℕ) (includeTombstoned : Bool) :
    ((Embernet.readChannelTailDecrypted chan n includeTombstoned).exec d').1 =
      ((Embernet.readChannelTailDecrypted chan n includeTombstoned).exec d).1 := by
  rw [result_readChannelTailDecrypted, result_readChannelTailDecrypted, h.readChannelTail]
  cases hread : ((Embernet.readChannelTail chan n includeTombstoned).exec d).1 with
  | error e => rfl
  | ok envs =>
    refine mapM_congr fun env henv => ?_
    exact decryptEnvelope_congr h.loadKeys (channel_of_mem_readChannelTail hread henv)

/-- **What a channel answers depends on its own files and on what is saved
beside them.** -/
theorem channelView (h : Alike chan d d') :
    Embernet.channelView chan d' = Embernet.channelView chan d := by
  simp only [Embernet.channelView, ChannelView.mk.injEq]
  refine ⟨?_, h.readIndexed _, funext fun i => h.readIndexed _, funext fun id => h.readIndexed _,
    funext fun n => funext (h.readChannelTail n),
    funext fun n => funext (h.readChannelTailDecrypted n), h.readPolicyHistory,
    h.readChannelPolicy, h.readModerationHistory, h.moderationState, h.policyForks.list,
    h.moderationForks.list, ?_, ?_, h.loadKeys, ?_⟩
  · rw [Bool.eq_iff_iff, List.contains_iff_mem, List.contains_iff_mem, h.listed]
  · funext head
    exact h.policyForks.readSaved
  · funext head
    exact h.moderationForks.readSaved
  · simp only [currentChannelKey, Query.bind_apply, Query.orBail_apply, h.loadKeys]

end Alike

end Reading

/-! ## Which directories are made -/

/-- A path has another below it. -/
def Above (path below : String) : Prop := ∃ rest, below = path ++ "/" ++ rest

/-- The prefixes of a path, where it was cut at a slash. -/
theorem mem_pathPrefixes_iff {above rest : List Char} {path : String} :
    path ∈ pathPrefixes above rest ↔ path.toList = above.reverse ++ rest ∨
      ∃ middle below, rest = middle ++ '/' :: below ∧ path.toList = above.reverse ++ middle := by
  induction rest generalizing above with
  | nil => simp [pathPrefixes, String.ext_iff]
  | cons c rest ih =>
    have hcons (hc : c = '/' → path.toList ≠ above.reverse) :
        path ∈ pathPrefixes (c :: above) rest ↔ path.toList = above.reverse ++ c :: rest ∨
          ∃ middle below, c :: rest = middle ++ '/' :: below ∧
            path.toList = above.reverse ++ middle := by
      simp only [ih, List.reverse_cons, List.append_assoc, List.singleton_append]
      refine or_congr_right ⟨?_, ?_⟩
      · rintro ⟨middle, below, rfl, hpath⟩
        exact ⟨c :: middle, below, rfl, hpath⟩
      · rintro ⟨middle, below, hrest, hpath⟩
        cases middle with
        | nil =>
          rw [List.append_nil] at hpath
          exact absurd hpath (hc (List.cons.inj hrest).1)
        | cons m middle =>
          obtain ⟨rfl, rfl⟩ := List.cons.inj hrest
          exact ⟨middle, below, rfl, hpath⟩
    rw [pathPrefixes]
    split
    · rename_i hc
      by_cases hpath : path.toList = above.reverse
      · have hmem : path = String.ofList above.reverse := by
          rw [← hpath, String.ofList_toList]
        subst hc
        exact iff_of_true (List.mem_cons.2 (.inl hmem))
          (.inr ⟨[], rest, rfl, by rw [List.append_nil, hpath]⟩)
      · have hne : path ≠ String.ofList above.reverse := by
          rintro rfl
          exact hpath (String.toList_ofList)
        rw [List.mem_cons, or_iff_right hne]
        exact hcons fun _ => hpath
    · rename_i hc
      exact hcons fun h => absurd h hc

/-- One path is above another that goes on from it. -/
theorem above_iff {path below : String} :
    Above path below ↔ ∃ rest, below.toList = path.toList ++ '/' :: rest := by
  constructor
  · rintro ⟨rest, rfl⟩
    exact ⟨rest.toList, by simp⟩
  · rintro ⟨rest, h⟩
    refine ⟨String.ofList rest, ?_⟩
    rw [String.ext_iff]
    simp [h]

/-- Making a directory makes it and those above it. -/
theorem mem_pathPrefixes_toList {path path' : String} :
    path ∈ pathPrefixes [] path'.toList ↔ path = path' ∨ Above path path' := by
  rw [mem_pathPrefixes_iff, above_iff, List.reverse_nil, List.nil_append, String.ext_iff]
  refine or_congr_right ⟨?_, ?_⟩
  · rintro ⟨middle, below, hrest, hpath⟩
    exact ⟨below, by rw [hrest, hpath, List.nil_append]⟩
  · rintro ⟨below, hrest⟩
    exact ⟨path.toList, below, hrest, rfl⟩

/-- What is above a directory in another is that other, or above it. -/
theorem eq_or_above_of_above {path name suffix : String} (hsuffix : '/' ∉ suffix.toList)
    (h : Above path (name ++ ("/" ++ suffix))) : path = name ∨ Above path name := by
  obtain ⟨rest, hrest⟩ := above_iff.1 h
  have hlists : name.toList ++ '/' :: suffix.toList = path.toList ++ '/' :: rest := by
    simpa using hrest
  rcases List.append_eq_append_iff.1 hlists with ⟨more, hpath, hmore⟩ | ⟨more, hname, hmore⟩
  · cases more with
    | nil =>
      left
      rw [String.ext_iff, hpath, List.append_nil]
    | cons c more =>
      refine absurd ?_ hsuffix
      rw [(List.cons.inj hmore).2]
      exact List.mem_append_right _ List.mem_cons_self
  · cases more with
    | nil =>
      left
      rw [String.ext_iff, hname, List.append_nil]
    | cons c more =>
      obtain ⟨rfl, -⟩ := List.cons.inj hmore
      exact .inr (above_iff.2 ⟨more, hname⟩)

/-- A channel on the way to a fork is the fork's directory, its channel, or
above that. -/
theorem conflictDir_above {chan other : ChannelRef} {dir : String}
    (hdir : dir = policyConflictDir other ∨ dir = moderationConflictDir other)
    (h : chan.fullName ∈ pathPrefixes [] dir.toList) :
    chan.fullName = dir ∨ chan = other ∨ Above chan.fullName other.fullName := by
  refine (mem_pathPrefixes_toList.1 h).imp_right fun habove => ?_
  have hname : chan.fullName = other.fullName ∨ Above chan.fullName other.fullName := by
    rcases hdir with rfl | rfl
    · exact eq_or_above_of_above (by decide : '/' ∉ "policy-conflicts".toList) habove
    · exact eq_or_above_of_above (by decide : '/' ∉ "moderation-conflicts".toList) habove
  exact hname.imp_left fun hname => by_contra fun hne => fullName_ne hne hname

/-! ## What the operations on another channel write -/

/-- A channel is called what a directory of another's saved forks is
called. -/
def NamedAsForks (chan other : ChannelRef) : Prop :=
  other.fullName = policyConflictDir chan ∨ other.fullName = moderationConflictDir chan

/-- The operations on the other channel may make the directory of this
one. -/
def Makes (other chan : ChannelRef) : Prop :=
  Above chan.fullName other.fullName ∨ NamedAsForks other chan

/-- The other channel is not called what the directories of this one's
saved forks are called, and this one is there, or is not made by what
makes the other. -/
def Separate (chan other : ChannelRef) (d : Datadir) : Prop :=
  ¬ NamedAsForks chan other ∧ (chan.fullName ∈ d.channels ∨ ¬ Makes other chan)

section Writing

variable [Primitives] {chan other : ChannelRef} {d d' : Datadir} {op : StoreOp}

/-- What is not there stays so. -/
theorem absent_other (hne : other ≠ chan) (hmakes : ¬ Makes other chan)
    (hdir : d.channels[chan.fullName]? = none) :
    (op.exec other d).channels[chan.fullName]? = none := by
  by_cases hmade : Part.made ∈ op.parts
  swap
  · exact absent_storeOp hmade hdir
  have hforks {dir : String}
      (h : dir = policyConflictDir other ∨ dir = moderationConflictDir other) :
      chan.fullName ∉ pathPrefixes [] dir.toList := by
    intro hmem
    rcases conflictDir_above h hmem with hname | rfl | habove
    · exact hmakes (.inr (h.imp hname.trans hname.trans))
    · exact hne rfl
    · exact hmakes (.inl habove)
  have hself : chan.fullName ∉ pathPrefixes [] other.fullName.toList := by
    intro hmem
    rcases mem_pathPrefixes_toList.1 hmem with hname | habove
    · exact fullName_ne hne hname.symm
    · exact hmakes (.inl habove)
  have hmap {o : Option Dir} {f : Dir → Dir} (ho : o = none) : o.map f = none := by rw [ho]; rfl
  have keeps {x : StoreM Unit} (h : Keeps (DirIs chan.fullName fun o => o = none) x) :
      (x.exec d).2.channels[chan.fullName]? = none := h d hdir
  cases op with
  | createChannel =>
    exact keeps (keeps_createChannel (fun h => absurd h hself) fun _ o => hmap)
  | savePolicyConflict =>
    exact keeps (keeps_ignore (keeps_savePolicyConflict
      (fun h => absurd h (hforks (.inl rfl))) (fun _ o _ _ => hmap) _))
  | resolvePolicyConflict =>
    exact keeps (keeps_ignore (keeps_resolvePolicyConflict
      (fun h => absurd h (hforks (.inl rfl))) (fun _ o _ _ => hmap) (fun _ o _ _ => hmap) _))
  | saveModerationConflict =>
    exact keeps (keeps_ignore (keeps_saveModerationConflict
      (fun h => absurd h (hforks (.inr rfl))) (fun _ o _ _ => hmap) _))
  | resolveModerationConflict =>
    exact keeps (keeps_ignore (keeps_resolveModerationConflict
      (fun h => absurd h (hforks (.inr rfl))) (fun _ o _ _ => hmap) (fun _ o _ _ => hmap) _))
  | _ => simp [StoreOp.parts] at hmade

/-- The files of a channel that is there stay. -/
theorem own_other (hne : other ≠ chan) (hthere : chan.fullName ∈ d.channels) :
    (op.exec other d).channels[chan.fullName]?.map Dir.own =
      d.channels[chan.fullName]?.map Dir.own := by
  have hname : other.fullName ≠ chan.fullName := fullName_ne hne
  refine keeps_storeOp (R := fun o => o.map Dir.own = d.channels[chan.fullName]?.map Dir.own)
    (fun part _ => ?_) d rfl
  have hsaved (o : Option Dir) (head : String) (bytes : Bytes) :
      (o.map fun dir => { dir with saved := dir.saved.insert head bytes }).map Dir.own =
        o.map Dir.own := by
    cases o <;> rfl
  cases part with
  | made =>
    intro hnone
    rw [Option.map_none, eq_comm, Option.map_eq_none_iff] at hnone
    rw [Std.ExtTreeMap.mem_iff_isSome_getElem?, hnone] at hthere
    cases hthere
  | policyFork => exact fun _ o head bytes h => (hsaved o head bytes).trans h
  | moderationFork => exact fun _ o head bytes h => (hsaved o head bytes).trans h
  | _ => exact fun h => absurd h hname

omit [Primitives] in
/-- The forks are listed by their file names. -/
theorem listSaved_eq {path : String} : listSaved path d =
    .ok (((d.channels[path]?.map Dir.fileStems).getD []).insertionSort (· ≤ ·)) := by
  rw [listSaved]
  cases d.channels[path]? <;> rfl

/-- Directories that are none of the other channel's list and hold the
same. -/
theorem savedAlike_other {path : String} (hname : other.fullName ≠ path)
    (hpolicy : policyConflictDir other ≠ path) (hmoderation : moderationConflictDir other ≠ path) :
    SavedAlike path d (op.exec other d) := by
  refine ⟨?_, savedAt_storeOp (fun _ => hpolicy) fun _ => hmoderation⟩
  rw [listSaved_eq, listSaved_eq]
  have hkeep : Keeps (DirIs path fun o =>
      (o.map Dir.fileStems).getD [] = (d.channels[path]?.map Dir.fileStems).getD [])
      (op.op other) := by
    refine keeps_storeOp fun part _ => ?_
    cases part with
    | made => exact fun h => h
    | policyFork => exact fun h => absurd h hpolicy
    | moderationFork => exact fun h => absurd h hmoderation
    | _ => exact fun h => absurd h hname
  have hstems := hkeep d rfl
  exact congrArg (fun stems => Except.ok (stems.insertionSort (· ≤ ·))) hstems

/-- **A step of one channel leaves another.** -/
theorem alike_other (hne : other ≠ chan) (h : Separate chan other d) :
    Alike chan d (op.exec other d) := by
  obtain ⟨hforks, hthere⟩ := h
  have hpolicy : policyConflictDir other ≠ policyConflictDir chan := fun h =>
    hne (eq_of_append_eq h)
  have hmoderation : moderationConflictDir other ≠ moderationConflictDir chan := fun h =>
    hne (eq_of_append_eq h)
  refine ⟨?_, savedAlike_other (fun h => hforks (.inl h)) hpolicy
    moderationConflictDir_ne_policyConflictDir, savedAlike_other (fun h => hforks (.inr h))
    moderationConflictDir_ne_policyConflictDir.symm hmoderation⟩
  by_cases hmem : chan.fullName ∈ d.channels
  · exact own_other hne hmem
  · have hnone : d.channels[chan.fullName]? = none := by simpa using hmem
    rw [hnone, absent_other hne (hthere.resolve_left hmem) hnone]

/-- Whatever is done to another channel keeps the two apart. -/
theorem separate_other (hne : other ≠ chan) (h : Separate chan other d) :
    Separate chan other (op.exec other d) := by
  refine ⟨h.1, h.2.imp_left fun hthere => ?_⟩
  have hown : ((op.exec other d).channels[chan.fullName]?.map Dir.own).isSome = _ :=
    congrArg Option.isSome (own_other hne hthere)
  rw [Std.ExtTreeMap.mem_iff_isSome_getElem?] at hthere ⊢
  simpa [hthere] using hown

/-- A run beside the channel leaves its view as it was. -/
theorem channelView_run (hne : other ≠ chan) (h : Separate chan other d) {ops : List StoreOp}
    (hrun : Run (StoreStep other) d ops d') : channelView chan d' = channelView chan d := by
  refine (hrun.invariant (I := fun d' => Separate chan other d' ∧
    channelView chan d' = channelView chan d) ?_ ⟨h, rfl⟩).2
  rintro t op _ ⟨hsep, hview⟩ rfl
  exact ⟨separate_other hne hsep, (alike_other hne hsep).channelView.trans hview⟩

/-! ### Where channels meet -/

omit [Primitives] in
/-- What making a channel makes. -/
theorem getElem?_createChannel (other : ChannelRef) (d : Datadir) (path : String) :
    ((createChannel other).exec d).2.channels[path]? =
      if other.fullName = path then
        some (let dir := d.channels[path]?.getD .empty
          { dir with log := some (dir.log.getD []) })
      else d.channels[path]?.or
        (if path ∈ pathPrefixes [] other.fullName.toList then some .empty else none) := by
  have hensure : (ensureDir other.fullName).exec d =
      (.ok (), ((ensureDir other.fullName).exec d).2) := rfl
  rw [createChannel, Op.exec_bind_of_ok hensure, getElem?_modifyDir, ensureDir, Op.exec_modify]
  simp only [getElem?_ensureDirs]
  split
  · rename_i hname
    subst hname
    rw [if_pos (self_mem_pathPrefixes _)]
    cases d.channels[other.fullName]? <;> rfl
  · rfl

/-- A channel that is called what a directory of saved forks is called is
listed there. -/
theorem listSaved_createChannel (hlisted : other.fullName ∉ listChannels d) :
    listSaved other.fullName (StoreOp.createChannel.exec other d) ≠
      listSaved other.fullName d := by
  intro h
  rw [listSaved_eq, listSaved_eq] at h
  have hlength := congrArg List.length (Except.ok.inj h)
  rw [List.length_insertionSort, List.length_insertionSort] at hlength
  have hdir : (StoreOp.createChannel.exec other d).channels[other.fullName]? = _ :=
    getElem?_createChannel other d other.fullName
  rw [if_pos rfl] at hdir
  rw [hdir] at hlength
  rw [mem_listChannels] at hlisted
  cases hold : d.channels[other.fullName]? with
  | none =>
    rw [hold] at hlength
    cases hlength
  | some dir =>
    have hlog : dir.log = none := by
      rw [← Option.not_isSome_iff_eq_none]
      exact fun hsome => hlisted ⟨dir, hold, hsome⟩
    rw [hold] at hlength
    simp [Dir.fileStems, hlog] at hlength

/-- A channel whose directory is made by what makes another has a policy
history that reads, where it had none. -/
theorem readPolicyHistory_createChannel (hne : other ≠ chan)
    (habove : Above chan.fullName other.fullName) (hnone : chan.fullName ∉ d.channels) :
    readPolicyHistory chan (StoreOp.createChannel.exec other d) ≠ readPolicyHistory chan d := by
  have hdir : (StoreOp.createChannel.exec other d).channels[chan.fullName]? = some .empty := by
    have h := getElem?_createChannel other d chan.fullName
    rw [if_neg (fullName_ne hne), if_pos (mem_pathPrefixes_toList.2 (.inr habove))] at h
    have hold : d.channels[chan.fullName]? = none := by simpa using hnone
    rwa [hold] at h
  have hold : d.channels[chan.fullName]? = none := by simpa using hnone
  rw [readPolicyHistory_of_getElem? hdir, readPolicyHistory, Query.bind_apply, openDir, hold]
  rintro ⟨⟩

omit [Primitives] in
/-- A channel named as a directory of forks is below. -/
theorem NamedAsForks.above (h : NamedAsForks chan other) : Above chan.fullName other.fullName := by
  rcases h with h | h
  · exact ⟨"policy-conflicts", by rw [h, policyConflictDir, String.append_assoc]; rfl⟩
  · exact ⟨"moderation-conflicts", by rw [h, moderationConflictDir, String.append_assoc]; rfl⟩

/-- **Which channels are isolated.** What a channel answers survives every
run of operations on another, from every node that has the channel,
exactly if the other is not called what a directory of its saved forks is
called. From a node that has not, it survives unless the operations make
the channel's directory on their way. -/
theorem channels_isolated_iff (hne : other ≠ chan) :
    ((∀ d, chan.fullName ∈ d.channels → ∀ ops d', Run (StoreStep other) d ops d' →
        channelView chan d' = channelView chan d) ↔ ¬ NamedAsForks chan other) ∧
      ∀ d, chan.fullName ∉ d.channels →
        (¬ Makes other chan → ∀ ops d', Run (StoreStep other) d ops d' →
          channelView chan d' = channelView chan d) ∧
        (Above chan.fullName other.fullName → ∃ d', Run (StoreStep other) d [.createChannel] d' ∧
          channelView chan d' ≠ channelView chan d) := by
  refine ⟨⟨fun h hforks => ?_, fun hforks d hthere ops d' hrun => ?_⟩, fun d hnone => ⟨?_, ?_⟩⟩
  · -- a node that has the channel and not yet the other
    set d : Datadir := ({} : Datadir).put chan.fullName .empty with hd
    have hthere : chan.fullName ∈ d.channels := by
      rw [Std.ExtTreeMap.mem_iff_isSome_getElem?, hd, getElem?_put_self]
      rfl
    have hlisted : other.fullName ∉ listChannels d := by
      rw [mem_listChannels, hd, getElem?_put_of_ne (fullName_ne hne).symm]
      rintro ⟨dir, hdir, -⟩
      simp at hdir
    have hview := h d hthere [.createChannel] (StoreOp.createChannel.exec other d)
      (.snoc (.nil d) rfl)
    have hlist := listSaved_createChannel hlisted
    rcases hforks with hname | hname
    · rw [hname] at hlist
      exact hlist (congrArg ChannelView.policyConflicts hview)
    · rw [hname] at hlist
      exact hlist (congrArg ChannelView.moderationConflicts hview)
  · exact channelView_run hne ⟨hforks, .inl hthere⟩ hrun
  · intro hmakes ops d' hrun
    exact channelView_run hne ⟨fun h => hmakes (.inl h.above), .inr hmakes⟩ hrun
  · intro habove
    refine ⟨_, .snoc (.nil d) rfl, fun hview => ?_⟩
    exact readPolicyHistory_createChannel hne habove hnone
      (congrArg ChannelView.policyHistory hview)

end Writing

/-! ## Two channels below one -/

section TwoChannels

open Simulated

attribute [local instance] simulated

/-- A channel below `general`. -/
def generalLinux : ChannelRef := ⟨"general/linux", by decide⟩

/-- Another, which has the name of a directory of the store's own. -/
def generalForks : ChannelRef := ⟨"general/policy-conflicts", by decide⟩

/-- A node that has `general`. -/
def generalNode : Datadir := ({} : Datadir).put general.fullName .empty

/-- The node has the channel. -/
theorem mem_generalNode : general.fullName ∈ generalNode.channels := by
  rw [Std.ExtTreeMap.mem_iff_isSome_getElem?, generalNode, getElem?_put_self]
  rfl

/-- The law for a channel below `general` that is made there. -/
theorem channels_isolated_linux : ∃ d, Run (StoreStep generalLinux) generalNode [.createChannel] d ∧
    generalLinux.fullName ∈ listChannels d ∧
    channelView general d = channelView general generalNode := by
  have hforks : ¬ NamedAsForks general generalLinux := by
    rintro (h | h) <;> revert h <;> decide
  have hrun : Run (StoreStep generalLinux) generalNode [.createChannel]
      (StoreOp.createChannel.exec generalLinux generalNode) := .snoc (.nil _) rfl
  refine ⟨_, hrun, ?_, (channels_isolated_iff (by decide)).1.2 hforks _ mem_generalNode _ _ hrun⟩
  have hdir := getElem?_createChannel generalLinux generalNode generalLinux.fullName
  rw [if_pos rfl] at hdir
  exact mem_listChannels.2 ⟨_, hdir, rfl⟩

/-- **A channel of that name is listed as a fork of `general`.** -/
theorem channel_listed_as_fork : ∃ d, Run (StoreStep generalForks) generalNode [.createChannel] d ∧
    listPolicyConflicts general generalNode = .ok [] ∧
    listPolicyConflicts general d = .ok ["log"] ∧
    channelView general d ≠ channelView general generalNode := by
  have hbefore : listPolicyConflicts general generalNode = .ok [] := by
    rw [listPolicyConflicts, listSaved_eq, generalNode,
      getElem?_put_of_ne (policyConflictDir_ne general).symm]
    simp
  have hafter : listPolicyConflicts general
      (StoreOp.createChannel.exec generalForks generalNode) = .ok ["log"] := by
    have hdir : (StoreOp.createChannel.exec generalForks generalNode).channels[
        generalForks.fullName]? = _ := getElem?_createChannel generalForks generalNode _
    have hnone : generalNode.channels[generalForks.fullName]? = none := by
      rw [generalNode, getElem?_put_of_ne (by decide)]
      simp
    rw [if_pos rfl, hnone] at hdir
    have hname : policyConflictDir general = generalForks.fullName := by decide
    rw [listPolicyConflicts, listSaved_eq, hname, hdir]
    rfl
  refine ⟨_, .snoc (.nil _) rfl, hbefore, hafter, fun hview => ?_⟩
  have hlists : listPolicyConflicts general (StoreOp.createChannel.exec generalForks generalNode) =
      listPolicyConflicts general generalNode := congrArg ChannelView.policyConflicts hview
  rw [hbefore, hafter] at hlists
  cases hlists

end TwoChannels

end Embernet
