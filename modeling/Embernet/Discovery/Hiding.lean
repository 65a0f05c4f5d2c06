import Embernet.Lib.Ending
import Embernet.Lib.Lockstep
import Embernet.Model.Server
import Embernet.Store.Isolation
import Embernet.Sync.Calls
import Embernet.Sync.Membership
import Embernet.Log.Serving
/-!
# Hiding — channels that are not there for those who may not read them

Two nodes, of which the second has channels more, all of them private to
others. What the serving node's calls do on a channel that both have, they
do on both alike, and a session that asks for a channel which only the
second has is told nothing by either.
-/

set_option autoImplicit false

namespace Embernet

open Primitives

section Hiding

variable [Primitives]

/-! ## The directories that one node has more -/

/-- The directory is that of a private channel which nobody of `K` may
read. -/
def HiddenFrom (K : Set String) (path : String) (dir : Dir) : Prop :=
  ∀ chan : ChannelRef, chan.fullName = path → ∃ policy, readDirPolicy chan dir = .ok policy ∧
    policy.visibility = .private_ ∧ ∀ key ∈ K, policyAllowsRead policy key = false

/-- The second node has the directories of `S` more, each of a channel that
is hidden from `K`. Nothing that the first has is below one of them, and
none is called what a directory of saved forks is called. -/
structure Hides (S : String → Option Dir) (K : Set String) (d d' : Datadir) : Prop where
  identity : d'.identity = d.identity
  outside : ∀ path, S path = none → d'.channels[path]? = d.channels[path]?
  inside : ∀ path dir, S path = some dir → d.channels[path]? = none ∧
    d'.channels[path]? = some dir ∧ HiddenFrom K path dir
  apart : ∀ path other, (S path).isSome → other ∈ d.channels → ¬ Above path other
  forks : ∀ path chan, (S path).isSome →
    path ≠ policyConflictDir chan ∧ path ≠ moderationConflictDir chan

variable {S : String → Option Dir} {K T : Set String} {d d' : Datadir} {chan : ChannelRef}
  {path : String}

/-- The same of two nodes that have the directories of `T`. -/
def Alongside (S : String → Option Dir) (K T : Set String) (d d' : Datadir) : Prop :=
  Hides S K d d' ∧ ∀ path ∈ T, path ∈ d.channels

/-! ## Reading -/

omit [Primitives] in
/-- A path is there if it has a directory. -/
theorem mem_channels_iff : path ∈ d.channels ↔ ∃ dir, d.channels[path]? = some dir := by
  rw [Std.ExtTreeMap.mem_iff_isSome_getElem?, Option.isSome_iff_exists]

/-- A directory that is not hidden opens the same. -/
theorem agrees_openDir (h : S path = none) : (openDir path).Agrees (Alongside S K T) := by
  intro d d' hd
  unfold openDir
  rw [hd.1.outside path h]

/-- A log that is not hidden opens the same. -/
theorem agrees_openLog (h : S chan.fullName = none) :
    (openLog chan).Agrees (Alongside S K T) := by
  intro d d' hd
  unfold openLog openDir
  rw [hd.1.outside _ h]

/-- Its policy history reads the same. -/
theorem agrees_readPolicyHistory (h : S chan.fullName = none) :
    (readPolicyHistory chan).Agrees (Alongside S K T) :=
  (agrees_openDir h).bind fun _ => .except _

/-- The policy in force reads the same. -/
theorem agrees_readChannelPolicy (h : S chan.fullName = none) :
    (readChannelPolicy chan).Agrees (Alongside S K T) := by
  intro d d' hd
  unfold readChannelPolicy
  rw [hd.1.outside _ h]

/-- A moderation derives the same. -/
theorem agrees_deriveModeration (h : S chan.fullName = none) (events : List ModerationEvent) :
    (deriveModeration chan events).Agrees (Alongside S K T) :=
  (agrees_readPolicyHistory h).bind fun _ => .except _

/-- Its moderation file reads the same. -/
theorem agrees_readModerationLog (h : S chan.fullName = none) (dir : Dir) :
    (readModerationLog chan dir).Agrees (Alongside S K T) := by
  unfold readModerationLog
  split
  · exact .pure _
  · exact (Query.Agrees.except _).bind fun _ => (agrees_deriveModeration h _).bind fun _ => .pure _

/-- The moderation history reads the same. -/
theorem agrees_readModerationHistory (h : S chan.fullName = none) :
    (readModerationHistory chan).Agrees (Alongside S K T) :=
  (agrees_openDir h).bind fun _ => agrees_readModerationLog h _

/-- A keyring that is not hidden loads the same. -/
theorem agrees_loadKeys (h : S path = none) : (loadKeys path).Agrees (Alongside S K T) := by
  intro d d' hd
  unfold loadKeys
  rw [hd.1.outside _ h]

/-- The identity is the node's, on both. -/
theorem agrees_loadIdentity : loadIdentity.Agrees (Alongside S K T) := by
  intro d d' hd
  unfold loadIdentity
  rw [hd.1.identity]

/-- The same authors may write. -/
theorem agrees_authorizeAppend (h : S chan.fullName = none) (author : String) :
    (authorizeAppend chan author).Agrees (Alongside S K T) :=
  (agrees_readChannelPolicy h).bind fun _ => .bailIf

/-! ## Writing -/

/-- **A directory that both have is written in both.** -/
theorem agrees_modifyDir (h : S path = none) (f : Dir → Dir) :
    (modifyDir path f).Agrees (Alongside S K T) := by
  refine .modify fun d d' hd => ?_
  have hmem (other : String) : other ∈ d.channels.modify path f ↔ other ∈ d.channels :=
    Std.ExtTreeMap.mem_modify
  have hget (dirs : Std.ExtTreeMap String Dir) (other : String) : (dirs.modify path f)[other]? =
      if path = other then dirs[path]?.map f else dirs[other]? := by
    rw [Std.ExtTreeMap.getElem?_modify]
    simp
  refine ⟨⟨hd.1.identity, fun other hother => ?_, fun other dir hdir => ?_,
    fun other below hother hbelow => ?_, hd.1.forks⟩, fun other hother => ?_⟩
  · rw [hget, hget, hd.1.outside other hother, hd.1.outside path h]
  · have hne : path ≠ other := by
      rintro rfl
      rw [h] at hdir
      cases hdir
    rw [hget, hget, if_neg hne, if_neg hne]
    exact hd.1.inside other dir hdir
  · exact hd.1.apart other below hother ((hmem below).1 hbelow)
  · exact (hmem other).2 (hd.2 other hother)

/-- The directory of saved forks of a channel. -/
def ForksOf (chan : ChannelRef) (path : String) : Prop :=
  path = policyConflictDir chan ∨ path = moderationConflictDir chan

/-- The forks of a channel are not hidden. -/
theorem Hides.outside_forks (h : Hides S K d d') (hforks : ForksOf chan path) : S path = none := by
  by_contra hsome
  have hne := h.forks path chan (Option.isSome_iff_ne_none.2 hsome)
  exact hforks.elim hne.1 hne.2

omit [Primitives] in
/-- A path below one below is below. -/
theorem Above.trans {other below : String} (h : Above path other) (h' : Above other below) :
    Above path below := by
  obtain ⟨rest, rfl⟩ := h
  obtain ⟨rest', rfl⟩ := h'
  exact ⟨rest ++ "/" ++ rest', by simp [String.append_assoc]⟩

/-- **A hidden directory is not made on the way** to where the forks of
another channel are saved. -/
theorem Hides.not_above_forks (h : Hides S K d d') (hthere : chan.fullName ∈ d.channels)
    (hchan : S chan.fullName = none) {hidden : String} (hhidden : (S hidden).isSome)
    (hforks : ForksOf chan path) : ¬ Above hidden path := by
  intro habove
  have hname : hidden = chan.fullName ∨ Above hidden chan.fullName := by
    rcases hforks with rfl | rfl
    · exact eq_or_above_of_above (by decide : '/' ∉ "policy-conflicts".toList) habove
    · exact eq_or_above_of_above (by decide : '/' ∉ "moderation-conflicts".toList) habove
  rcases hname with rfl | hname
  · rw [hchan] at hhidden
    cases hhidden
  · exact h.apart hidden _ hhidden hthere hname

/-- A directory of forks is made the same. -/
theorem agrees_ensureForks (hchan : S chan.fullName = none) (hthere : chan.fullName ∈ T)
    (hforks : ForksOf chan path) : (ensureDir path).Agrees (Alongside S K T) := by
  refine .modify fun d d' hd => ?_
  have habove {hidden : String} (hhidden : (S hidden).isSome) : ¬ Above hidden path :=
    hd.1.not_above_forks (hd.2 _ hthere) hchan hhidden hforks
  have hway {hidden : String} (hhidden : (S hidden).isSome) :
      hidden ∉ pathPrefixes [] path.toList := by
    intro hmem
    rcases mem_pathPrefixes_toList.1 hmem with rfl | hmem
    · rw [hd.1.outside_forks hforks] at hhidden
      cases hhidden
    · exact habove hhidden hmem
  refine ⟨⟨hd.1.identity, fun other hother => ?_, fun other dir hdir => ?_,
    fun hidden other hhidden hother hbelow => ?_, hd.1.forks⟩, fun other hother => ?_⟩
  · rw [getElem?_ensureDirs, getElem?_ensureDirs, hd.1.outside other hother]
  · have hsome : (S other).isSome := by rw [hdir]; rfl
    obtain ⟨habsent, hinside, hhidden⟩ := hd.1.inside other dir hdir
    rw [getElem?_ensureDirs, getElem?_ensureDirs, if_neg (hway hsome), habsent, hinside]
    exact ⟨rfl, rfl, hhidden⟩
  · obtain ⟨dir, hdir⟩ := mem_channels_iff.1 hother
    rw [getElem?_ensureDirs] at hdir
    by_cases hmade : other ∈ pathPrefixes [] path.toList
    · -- what is below a hidden directory is not on the way
      rcases mem_pathPrefixes_toList.1 hmade with rfl | hmade
      · exact habove hhidden hbelow
      · exact habove hhidden (hbelow.trans hmade)
    · rw [if_neg hmade, Option.or_none] at hdir
      exact hd.1.apart hidden other hhidden (mem_channels_iff.2 ⟨dir, hdir⟩) hbelow
  · obtain ⟨dir, hdir⟩ := mem_channels_iff.1 (hd.2 other hother)
    refine mem_channels_iff.2 ⟨dir, ?_⟩
    rw [getElem?_ensureDirs, hdir]
    rfl

/-- A policy fork is saved the same. -/
theorem agrees_savePolicyConflict (hchan : S chan.fullName = none) (hthere : chan.fullName ∈ T)
    (events : List PolicyEvent) : (savePolicyConflict chan events).Agrees (Alongside S K T) := by
  refine (Op.Agrees.except _).bind fun _ => Op.Agrees.orBail.bind fun last => ?_
  refine (agrees_ensureForks hchan hthere (.inl rfl)).bind fun _ =>
    Op.Agrees.bind ?_ fun _ => .pure _
  intro d d' hd
  exact agrees_modifyDir (hd.1.outside_forks (.inl rfl)) _ d d' hd

/-- A moderation fork is saved the same. -/
theorem agrees_saveModerationConflict (hchan : S chan.fullName = none)
    (hthere : chan.fullName ∈ T) (events : List ModerationEvent) :
    (saveModerationConflict chan events).Agrees (Alongside S K T) := by
  refine (Op.Agrees.query (agrees_deriveModeration hchan _)).bind fun _ =>
    Op.Agrees.orBail.bind fun last => ?_
  refine (agrees_ensureForks hchan hthere (.inr rfl)).bind fun _ =>
    Op.Agrees.bind ?_ fun _ => .pure _
  intro d d' hd
  exact agrees_modifyDir (hd.1.outside_forks (.inr rfl)) _ d d' hd

/-- A policy is taken in the same. -/
theorem agrees_appendRemotePolicyHistory (hchan : S chan.fullName = none)
    (remote : List PolicyEvent) :
    (appendRemotePolicyHistory chan remote).Agrees (Alongside S K T) :=
  (Op.Agrees.query (agrees_openLog hchan)).bind fun _ => (Op.Agrees.except _).bind fun _ =>
    (Op.Agrees.except _).bind fun _ => Op.Agrees.bailIf.bind fun _ =>
      (agrees_modifyDir hchan _).bind fun _ => .pure _

/-- A moderation is taken in the same. -/
theorem agrees_appendRemoteModerationHistory (hchan : S chan.fullName = none)
    (remote : List ModerationEvent) :
    (appendRemoteModerationHistory chan remote).Agrees (Alongside S K T) :=
  (Op.Agrees.query (agrees_openLog hchan)).bind fun _ =>
    (Op.Agrees.query (agrees_readModerationLog hchan _)).bind fun _ =>
      (Op.Agrees.query (agrees_deriveModeration hchan _)).bind fun _ =>
        Op.Agrees.bailIf.bind fun _ => (agrees_modifyDir hchan _).bind fun _ => .pure _

/-- Keys are accepted the same. -/
theorem agrees_acceptKeyOffers (hchan : S chan.fullName = none) (identity : KeypairFile)
    (offers : List KeyOffer) :
    (acceptKeyOffers chan.fullName identity offers).Agrees (Alongside S K T) := by
  refine (Op.Agrees.query (agrees_openDir hchan)).bind fun _ =>
    (Op.Agrees.query (agrees_loadKeys hchan)).bind fun _ => (Op.Agrees.except _).bind fun _ => ?_
  dsimp only
  split
  · exact (agrees_modifyDir hchan _).bind fun _ => .pure _
  · exact .pure _

/-- Reads through the index are the same. -/
theorem agrees_readIndexed {α : Type} (hchan : S chan.fullName = none)
    (f : Bytes → Index → Except Error α) : (readIndexed chan f).Agrees (Alongside S K T) :=
  (Op.Agrees.query (agrees_openLog hchan)).bind fun _ => (Op.Agrees.except _).bind fun _ =>
    (agrees_modifyDir hchan _).bind fun _ => .except _

/-- Messages are appended the same. -/
theorem agrees_appendMessage (hchan : S chan.fullName = none) (env : Envelope) :
    (appendMessage chan env).Agrees (Alongside S K T) := by
  refine Op.Agrees.bailIf.bind fun _ => (Op.Agrees.except _).bind fun _ =>
    (Op.Agrees.query (agrees_openDir hchan)).bind fun _ => (agrees_modifyDir hchan _).bind fun _ =>
    (Op.Agrees.query (agrees_authorizeAppend hchan _)).bind fun _ =>
    (Op.Agrees.except _).bind fun _ => (agrees_modifyDir hchan _).bind fun _ => ?_
  refine .ite (.pure _) ((agrees_modifyDir hchan _).bind fun _ => (Op.Agrees.except _).bind fun _ =>
    (agrees_modifyDir hchan _).bind fun _ => .pure _)

/-- **Every call of a session on a channel that both have** does the same
on both. -/
theorem Stored.agrees {β : Type} {l : Call} {x : StoreM β} (hx : Stored chan β l x)
    (hchan : S chan.fullName = none) (hthere : chan.fullName ∈ T) :
    x.Agrees (Alongside S K T) := by
  cases hx with
  | readPolicyHistory => exact .query (agrees_readPolicyHistory hchan)
  | readChannelPolicy => exact .query (agrees_readChannelPolicy hchan)
  | deriveModeration events => exact .query (agrees_deriveModeration hchan events)
  | readModerationHistory => exact .query (agrees_readModerationHistory hchan)
  | loadIdentity doing =>
    refine .query fun d d' hd => ?_
    rw [agrees_loadIdentity d d' hd]
  | makeKeyOffers identity recipient nonces =>
    exact .query ((agrees_loadKeys hchan).bind fun _ => .except _)
  | savePolicyConflict events => exact agrees_savePolicyConflict hchan hthere events
  | appendRemotePolicyHistory remote => exact agrees_appendRemotePolicyHistory hchan remote
  | saveModerationConflict events => exact agrees_saveModerationConflict hchan hthere events
  | appendRemoteModerationHistory remote =>
    exact agrees_appendRemoteModerationHistory hchan remote
  | acceptKeyOffers identity offers => exact agrees_acceptKeyOffers hchan identity offers
  | chunkSummaries => exact agrees_readIndexed hchan _
  | chunkIds i => exact agrees_readIndexed hchan _
  | readMessageById id => exact agrees_readIndexed hchan _
  | appendMessage env => exact agrees_appendMessage hchan env

/-! ## A session that asks for one of them -/

section Refusing

open Responder

variable {status : StatusMessage} {nonces : ℕ → Bytes}

/-- A channel that is not there is told nothing. -/
theorem solo_reconcile_absent (h : d.channels[chan.fullName]? = none) :
    ∃ e, (reconcile chan status nonces).solo d = ([], .error e, d) := by
  have hread : readPolicyHistory chan d = .error ["No such file or directory"] := by
    rw [readPolicyHistory, Query.bind_apply, openDir, h]
    rfl
  refine ⟨["No such file or directory"], Proc.solo_bind_of_error (Proc.solo_bind_of_error ?_)⟩
  rw [ask, Proc.solo_call, Op.exec_query, hread]

/-- Neither is one that does not admit the requester. -/
theorem solo_reconcile_refused {policy : ChannelPolicy}
    (hread : readChannelPolicy chan d = .ok policy)
    (hrefuses : policyAllowsRead policy status.requester = false) :
    ∃ e, (reconcile chan status nonces).solo d = ([], .error e, d) := by
  suffices h : ∃ e, (admitRequester chan status.requester).solo d = ([], .error e, d) by
    obtain ⟨e, h⟩ := h
    exact ⟨e, Proc.solo_bind_of_error h⟩
  cases hhistory : readPolicyHistory chan d with
  | error e =>
    refine ⟨e, Proc.solo_bind_of_error ?_⟩
    rw [ask, Proc.solo_call, Op.exec_query, hhistory]
  | ok events =>
    rw [admitRequester, ask, Proc.solo_call_bind (by rw [Op.exec_query, hhistory]), ask,
      Proc.solo_call_bind (by rw [Op.exec_query, hread])]
    refine ⟨[s!"requester is not a member of private channel {chan.fullName}"],
      Proc.solo_bind_of_error ?_⟩
    rw [Proc.solo_bailIf, bailIf, if_pos hrefuses]
    rfl

/-- What two runs of a session have in common, of which the first is on the
files `d`. -/
structure SameRun (S : String → Option Dir) (K : Set String) (d : Datadir)
    (x x' : List Frame × Except Error Await × Datadir) : Prop where
  sent : x'.1 = x.1
  waits : waits x'.2.1 = waits x.2.1
  files : Hides S K x.2.2 x'.2.2
  stays : ∀ path ∈ d.channels, path ∈ x.2.2.channels
  about : ∀ w chan, Responder.waits x.2.1 = some w → w.channel = some chan →
    S chan.fullName = none ∧ chan.fullName ∈ d.channels

omit [Primitives] in
/-- A session that waits has not failed. -/
theorem eq_of_waits {r : Except Error Await} {w : Await} (h : waits r = some w) : r = .ok w := by
  cases r with
  | error e => cases h
  | ok w' =>
    cases w' with
    | done => cases h
    | _ => rw [← Option.some.inj h]

/-- What agrees in each of its calls runs the same. -/
theorem SameRun.of_agrees {p : Session Await} (h : Hides S K d d')
    (hp : p.Each fun _ _ x => x.Agrees (Alongside S K {path | path ∈ d.channels}))
    (hreturns : p.Returns fun w => ∀ chan, w.channel = some chan →
      S chan.fullName = none ∧ chan.fullName ∈ d.channels) :
    SameRun S K d (p.solo d) (p.solo d') := by
  obtain ⟨hsent, hends, hfiles, hstays⟩ := Proc.solo_agrees hp ⟨h, fun _ hpath => hpath⟩
  refine ⟨hsent.symm, by rw [hends], hfiles, hstays, fun w chan hw hchan => ?_⟩
  exact Proc.solo_returns hreturns (eq_of_waits hw) chan hchan

/-- And what is refused on both sides. -/
theorem SameRun.of_refused {p : Session Await} (h : Hides S K d d')
    (hp : ∃ e, p.solo d = ([], .error e, d)) (hp' : ∃ e, p.solo d' = ([], .error e, d')) :
    SameRun S K d (p.solo d) (p.solo d') := by
  obtain ⟨e, hp⟩ := hp
  obtain ⟨e', hp'⟩ := hp'
  rw [hp, hp']
  exact ⟨rfl, rfl, h, fun _ hpath => hpath, fun w chan hw => by cases hw⟩

/-- The points that a session comes to are about its channel. -/
theorem channel_reconcile : (reconcile chan status nonces).Returns fun w => w.channel = some chan :=
  .bind fun _ => .bind fun _ => .bind fun _ => .bind fun _ => .bind fun _ => .bind fun _ =>
    .bind fun _ => .bind fun _ => .bind fun _ => .bind fun _ => rfl

/-- **A session that a status packet opens**, on both. -/
theorem SameRun.reconcile (h : Hides S K d d') (hby : status.requester ∈ K) :
    SameRun S K d ((Responder.reconcile chan status nonces).solo d)
      ((Responder.reconcile chan status nonces).solo d') := by
  cases hsecret : S chan.fullName with
  | some dir =>
    obtain ⟨habsent, hinside, hhidden⟩ := h.inside _ dir hsecret
    obtain ⟨policy, hread, -, hrefuses⟩ := hhidden chan rfl
    refine .of_refused h (solo_reconcile_absent habsent)
      (solo_reconcile_refused ?_ (hrefuses _ hby))
    rwa [readChannelPolicy_of_getElem? hinside]
  | none =>
    by_cases hthere : chan.fullName ∈ d.channels
    · refine .of_agrees h ((stored_reconcile status nonces).mono fun _ _ _ hx =>
        hx.agrees hsecret hthere) (Duplex.returns_mono channel_reconcile ?_)
      rintro w hw chan' hchan'
      cases hw.symm.trans hchan'
      exact ⟨hsecret, hthere⟩
    · have habsent : d.channels[chan.fullName]? = none := by
        rwa [Std.ExtTreeMap.mem_iff_isSome_getElem?, Option.not_isSome_iff_eq_none] at hthere
      exact .of_refused h (solo_reconcile_absent habsent)
        (solo_reconcile_absent ((h.outside _ hsecret).trans habsent))

/-- The points that a session comes to from one on a channel are on it. -/
theorem channel_resume {w : Await} {i : Incoming × Ambient} (hw : w.channel = some chan) :
    (resume w i).Returns fun w' => ∀ chan', w'.channel = some chan' → chan' = chan := by
  have hsame {w : Await} (hw : w.channel = some chan) :
      ∀ chan', w.channel = some chan' → chan' = chan := by
    intro chan' hchan'
    exact (Option.some.inj (hw.symm.trans hchan')).symm
  have hfinish (sent received : ℕ) (wanted : Finset String) :
      (finishUpload chan sent wanted received).Returns
        fun w' => ∀ chan', w'.channel = some chan' → chan' = chan := by
    unfold finishUpload
    split
    · exact .bind fun _ => by rintro chan' ⟨⟩
    · exact hsame rfl
  obtain ⟨i, ambient⟩ := i
  cases w with
  | status challenge => cases hw
  | done => cases hw
  | keySync chan' status policy identity =>
    cases hw
    refine .bind fun m => ?_
    cases m with
    | none => exact hsame rfl
    | some m =>
      exact .bind fun _ => .bind fun _ => .bind fun _ => .bind fun _ => .bind fun _ => hsame rfl
  | chunkIds chan' serverChunks differing =>
    cases hw
    refine .bind fun m => ?_
    cases m with
    | none => exact hsame rfl
    | some batch => exact .bind fun _ => .bind fun _ => .bind fun _ => .bind fun _ => hfinish _ _ _
  | upload chan' sent wanted received =>
    cases hw
    refine .bind fun m => ?_
    cases m with
    | none => exact hsame rfl
    | some env => exact .bind fun _ => .bind fun _ => .bind fun _ => .bind fun _ => hfinish _ _ _

/-- **A frame that a session is told**, on both. -/
theorem SameRun.resume {w : Await} {i : Incoming} {ambient : Ambient} (h : Hides S K d d')
    (hby : ∀ t m, i = .text t → t.status = some m → m.requester ∈ K)
    (habout : ∀ chan, w.channel = some chan →
      S chan.fullName = none ∧ chan.fullName ∈ d.channels) :
    SameRun S K d ((Responder.resume w (i, ambient)).solo d)
      ((Responder.resume w (i, ambient)).solo d') := by
  cases hchannel : w.channel with
  | some chan =>
    obtain ⟨hsecret, hthere⟩ := habout chan hchannel
    refine .of_agrees h ((stored_resume hchannel _).mono fun _ _ _ hx =>
      hx.agrees hsecret hthere) (Duplex.returns_mono (channel_resume hchannel) ?_)
    intro w' hw' chan' hchan'
    obtain rfl := hw' chan' hchan'
    exact ⟨hsecret, hthere⟩
  | none =>
    cases w with
    | keySync | chunkIds | upload => cases hchannel
    | done =>
      rw [Responder.resume, Proc.solo_pure, Proc.solo_pure]
      exact ⟨rfl, rfl, h, fun _ hpath => hpath, fun w chan hw => by cases hw⟩
    | status challenge =>
      rw [Responder.resume]
      cases hread : readStatus i with
      | error e =>
        exact .of_refused h ⟨e, Proc.solo_bind_of_error Proc.solo_except⟩
          ⟨e, Proc.solo_bind_of_error Proc.solo_except⟩
      | ok status =>
        rw [Proc.solo_except_bind rfl, Proc.solo_except_bind rfl]
        cases hcheck : checkStatus challenge status ambient.now ambient.now' with
        | error e =>
          exact .of_refused h ⟨e, Proc.solo_bind_of_error Proc.solo_except⟩
            ⟨e, Proc.solo_bind_of_error Proc.solo_except⟩
        | ok chan =>
          rw [Proc.solo_except_bind rfl, Proc.solo_except_bind rfl]
          refine .reconcile h ?_
          -- the packet that was read is that of the frame
          cases i with
          | other | failed | closed => cases hread
          | text t =>
            obtain ⟨m, hm, hread⟩ := bind_eq_ok.1 hread
            obtain ⟨_, -, hread⟩ := bind_eq_ok.1 hread
            cases hread
            exact hby t _ rfl (orBail_eq_ok.1 hm)

end Refusing

/-! ## The list of channels -/

omit [Primitives] in
/-- The directories of the first node are those of the second that are not
hidden. -/
theorem Hides.channels_eq [Primitives] (h : Hides S K d d') :
    d.channels = d'.channels.filter fun path _ => (S path).isNone := by
  refine Std.ExtTreeMap.ext_getElem? fun path => ?_
  rw [Std.ExtTreeMap.getElem?_filter']
  cases hpath : S path with
  | none =>
    rw [h.outside path hpath]
    cases d.channels[path]? with
    | none => rfl
    | some dir => simp [Option.filter]
  | some dir =>
    obtain ⟨habsent, hinside, -⟩ := h.inside path dir hpath
    rw [habsent, hinside]
    simp [Option.filter]

/-- The list of the one is the other's without the hidden names. -/
theorem Hides.listChannels_eq (h : Hides S K d d') :
    listChannels d = (listChannels d').filter fun name => (S name).isNone := by
  unfold listChannels
  rw [h.channels_eq, Std.ExtTreeMap.toList_filter, List.filter_map, List.filter_filter,
    List.filter_filter]
  congr 2
  funext x
  exact Bool.and_comm _ _

/-- **A hidden channel is not listed**, to nobody and to none of `K`. -/
theorem Hides.listReadableChannels_eq {requester : Option String} (h : Hides S K d d')
    (hby : ∀ key, requester = some key → key ∈ K) :
    listReadableChannels requester d = listReadableChannels requester d' := by
  unfold listReadableChannels
  rw [h.listChannels_eq]
  refine filterMapM_filter (fun name _ hkeep => ?_) fun name hname hkeep => ?_
  · cases hparse : ChannelRef.parse name with
    | error e => rfl
    | ok chan =>
      have hname := ChannelRef.fullName_of_parse hparse
      rw [← hname] at hkeep
      have hread := agrees_readChannelPolicy (Option.isNone_iff_eq_none.1 hkeep) d d'
        ⟨h, fun path hpath => absurd hpath (Set.notMem_empty path)⟩
      show (readChannelPolicy chan d >>= _) = (readChannelPolicy chan d' >>= _)
      rw [hread]
  · cases hsecret : S name with
    | none =>
      rw [hsecret] at hkeep
      cases hkeep
    | some dir =>
      obtain ⟨-, hinside, hhidden⟩ := h.inside name dir hsecret
      have hvalid : validChannel name = true := by
        obtain ⟨x, hx, rfl⟩ := List.mem_map.1 hname
        exact (Bool.and_eq_true_iff.1 (List.mem_filter.1 hx).2).2
      obtain ⟨policy, hread, hprivate, hrefuses⟩ := hhidden ⟨name, hvalid⟩ rfl
      have hunlisted : listedFor policy requester = false := by
        cases requester with
        | none => rw [listedFor, hprivate]; rfl
        | some key => exact hrefuses key (hby key rfl)
      rw [ChannelRef.parse_fullName ⟨name, hvalid⟩]
      show (readChannelPolicy ⟨name, hvalid⟩ d' >>= _) = _
      rw [readChannelPolicy_of_getElem? hinside, hread]
      show (pure (if listedFor policy requester = true then some name else none) :
        Except Error (Option String)) = _
      rw [hunlisted]
      rfl

/-! ## Requests -/

omit [Primitives] in
/-- A request in nobody's name but those of `K`. -/
def Request.By (K : Set String) : Request → Prop
  | .status headers _ _ => ∀ key, headers.key = some (.ok key) → key ∈ K
  | .frame _ (.text t) _ => ∀ m, t.status = some m → m.requester ∈ K
  | _ => True

/-- Two nodes whose files differ in hidden channels only. -/
structure Lookalike (S : String → Option Dir) (K : Set String) (s s' : Server) : Prop where
  files : Hides S K s.files s'.files
  app : s'.app = s.app
  sessions : s'.sessions = s.sessions
  about : ∀ w chan, some w ∈ s.sessions → w.channel = some chan →
    S chan.fullName = none ∧ chan.fullName ∈ s.files.channels

namespace Lookalike

variable {s s' : Server}

/-- A session that runs alike on both leaves both alike. -/
theorem runs {task : Session Responder.Await}
    {put : Option Responder.Await → List (Option Responder.Await)} (h : Lookalike S K s s')
    (hrun : SameRun S K s.files (task.solo s.files) (task.solo s'.files))
    (hput : ∀ o w, some w ∈ put o → o = some w ∨ some w ∈ s.sessions) :
    (s'.runs task put).1 = (s.runs task put).1 ∧
      Lookalike S K (s.runs task put).2 (s'.runs task put).2 := by
  unfold Server.runs
  refine ⟨?_, hrun.files, h.app, congrArg put hrun.waits, fun w chan hw hchan => ?_⟩
  · dsimp only
    rw [hrun.sent, hrun.waits]
  · rcases hput _ w hw with hw | hw
    · obtain ⟨hsecret, hthere⟩ := hrun.about w chan hw hchan
      exact ⟨hsecret, hrun.stays _ hthere⟩
    · obtain ⟨hsecret, hthere⟩ := h.about w chan hw hchan
      exact ⟨hsecret, hrun.stays _ hthere⟩

/-- `/status` answers alike. -/
theorem statusHandler (h : Lookalike S K s s') {headers : DiscoveryHeaders} {now now' : Int64}
    (hby : ∀ key, headers.key = some (.ok key) → key ∈ K) :
    Embernet.statusHandler s'.files headers now now' s'.app =
      Embernet.statusHandler s.files headers now now' s.app := by
  unfold Embernet.statusHandler
  rw [h.app]
  cases hrequester : discoveryRequester headers now now' s.app with
  | error e => rfl
  | ok passed =>
    obtain ⟨requester, app⟩ := passed
    dsimp only
    rw [h.files.listReadableChannels_eq]
    intro key hkey
    rcases discoveryRequester_ok.1 hrequester with
      ⟨-, -, -, -, rfl, -⟩ | ⟨key', _, _, _, _, hheader, -, -, -, -, -, -, -, rfl, -⟩
    · cases hkey
    · cases hkey
      exact hby key hheader

/-- **One request** is answered alike by both, and leaves both alike. -/
theorem handle (h : Lookalike S K s s') {r : Request} (hby : r.By K) :
    (s'.handle r).1 = (s.handle r).1 ∧ Lookalike S K (s.handle r).2 (s'.handle r).2 := by
  cases r with
  | challenge random now now' =>
    unfold Server.handle
    rw [h.app]
    exact ⟨rfl, h.files, rfl, h.sessions, h.about⟩
  | status headers now now' =>
    unfold Server.handle
    dsimp only
    rw [h.statusHandler hby]
    exact ⟨rfl, h.files, rfl, h.sessions, h.about⟩
  | sync random now =>
    unfold Server.handle
    rw [h.app, h.sessions]
    refine h.runs ?_ fun o w hw => ?_
    · refine .of_agrees h.files (.bind (Proc.each_except _) fun _ =>
        .bind (Proc.each_emit _) fun _ => trivial) ?_
      exact .bind fun _ => .bind fun _ => by rintro chan ⟨⟩
    · rcases List.mem_append.1 hw with hw | hw
      · exact .inr hw
      · exact .inl (List.mem_singleton.1 hw).symm
  | frame n i ambient =>
    unfold Server.handle
    dsimp only
    rw [h.sessions]
    cases hn : s.sessions[n]?.join with
    | none => exact ⟨rfl, h⟩
    | some w =>
      have hmem : some w ∈ s.sessions := List.mem_of_getElem? (Option.join_eq_some_iff.1 hn)
      refine h.runs (.resume h.files ?_ fun chan hchan => h.about w chan hmem hchan) ?_
      · rintro t m rfl hm
        exact hby m hm
      · intro o w' hw'
        rcases List.mem_or_eq_of_mem_set hw' with hw' | hw'
        · exact .inr hw'
        · exact .inl hw'.symm

/-- **Any requests**, in any order. -/
theorem serve {rs : List Request} (h : Lookalike S K s s') (hby : ∀ r ∈ rs, r.By K) :
    (s'.serve rs).1 = (s.serve rs).1 ∧ Lookalike S K (s.serve rs).2 (s'.serve rs).2 := by
  induction rs generalizing s s' with
  | nil => exact ⟨rfl, h⟩
  | cons r rs ih =>
    obtain ⟨hreply, hleft⟩ := h.handle (hby r List.mem_cons_self)
    obtain ⟨hreplies, hleft⟩ := ih hleft fun r' hr' => hby r' (List.mem_cons_of_mem r hr')
    refine ⟨?_, hleft⟩
    exact congrArg₂ List.cons hreply hreplies

end Lookalike

/-- **A private channel is not there for those who may not read it.** A node
that has more channels than another, each private to others than those who
ask, answers every request and every frame as the other does, and writes
nothing to them. -/
theorem hidden_channels_unseen {s s' : Server} {rs : List Request} (h : Lookalike S K s s')
    (hby : ∀ r ∈ rs, r.By K) : (s'.serve rs).1 = (s.serve rs).1 ∧
      Hides S K (s.serve rs).2.files (s'.serve rs).2.files :=
  ⟨(h.serve hby).1, (h.serve hby).2.files⟩

end Hiding

/-! ### A stranger asks for it by name -/

section Asked

open Simulated

attribute [local instance] sessionPrimitives

/-- A node with a public channel. -/
def openNode : Datadir :=
  ({ identity := .value (identity 4) } : Datadir).put elsewhere.fullName newDir

/-- The directory of a private channel. -/
def closedDir : Dir := { newDir with policyJson := .value closedPolicy }

/-- The same node, with a private channel as well. -/
def secretiveNode : Datadir := openNode.put general.fullName closedDir

/-- What it has more. -/
def closedDirs (path : String) : Option Dir :=
  if path = general.fullName then some closedDir else none

/-- The channel is private, to others than the requester. -/
theorem hiddenFrom_closedDir :
    HiddenFrom {request.requester} general.fullName closedDir := by
  intro chan hchan
  obtain rfl : chan = general := by
    cases chan
    cases hchan
    rfl
  have hread : readDirPolicy general closedDir = .ok closedPolicy := by
    show readDirPolicy general { Dir.empty with policyJson := .value closedPolicy } = _
    rw [← readChannelPolicy_of_getElem? getElem?_closedNode]
    exact readChannelPolicy_closedNode
  refine ⟨closedPolicy, hread, rfl, ?_⟩
  rintro key rfl
  rw [Bool.eq_false_iff]
  intro hallows
  exact not_member_request ⟨closedPolicy, readChannelPolicy_closedNode, hallows⟩

/-- The open node has one channel. -/
theorem mem_openNode {path : String} : path ∈ openNode.channels ↔ path = elsewhere.fullName := by
  rw [mem_channels_iff, openNode, getElem?_put]
  split
  · next hpath => exact iff_of_true ⟨_, rfl⟩ hpath.symm
  · next hpath => exact iff_of_false (by rintro ⟨dir, ⟨⟩⟩) fun h => hpath h.symm

/-- The hidden directory is one. -/
theorem closedDirs_isSome {path : String} (h : (closedDirs path).isSome) :
    path = general.fullName := by
  unfold closedDirs at h
  split at h
  · assumption
  · cases h

/-- So the second node has that one more. -/
theorem hides_secretiveNode : Hides closedDirs {request.requester} openNode secretiveNode := by
  refine ⟨rfl, fun path hpath => ?_, fun path dir hdir => ?_, fun path other hpath hother => ?_,
    fun path chan hpath => ?_⟩
  · refine getElem?_put_of_ne fun heq => ?_
    rw [closedDirs, if_pos heq.symm] at hpath
    cases hpath
  · obtain rfl := @closedDirs_isSome path (by rw [hdir]; rfl)
    obtain rfl : closedDir = dir := Option.some.inj hdir
    refine ⟨?_, getElem?_put_self _ _ _, hiddenFrom_closedDir⟩
    rw [openNode, getElem?_put_of_ne (by decide)]
    rfl
  · obtain rfl := mem_openNode.1 hother
    rintro ⟨rest, hrest⟩
    have hslash : '/' ∈ elsewhere.fullName.toList := by
      rw [hrest]
      simp
    exact absurd hslash (by decide)
  · obtain rfl := closedDirs_isSome hpath
    have hplain : '/' ∉ general.fullName.toList := by decide
    constructor
    · intro h
      rw [h, policyConflictDir] at hplain
      simp at hplain
    · intro h
      rw [h, moderationConflictDir] at hplain
      simp at hplain

/-- What the stranger asks: for the list, without a key, then for the
channel, in a session of its own. -/
def strangerRequests : List Request :=
  [.status ⟨none, none, none, none⟩ 0 0, .sync sessionNonce 0,
    .frame 0 (.text { status := some request }) strangerInput.2]

/-- The law for a stranger, who asks for the list and for the channel
itself. -/
theorem hidden_channels_unseen_stranger :
    (Server.serve ⟨secretiveNode, ⟨identity 4, ∅⟩, []⟩ strangerRequests).1 =
      (Server.serve ⟨openNode, ⟨identity 4, ∅⟩, []⟩ strangerRequests).1 ∧
    Hides closedDirs {request.requester}
      (Server.serve ⟨openNode, ⟨identity 4, ∅⟩, []⟩ strangerRequests).2.files
      (Server.serve ⟨secretiveNode, ⟨identity 4, ∅⟩, []⟩ strangerRequests).2.files := by
  refine hidden_channels_unseen ⟨hides_secretiveNode, rfl, rfl, by rintro w chan ⟨⟩⟩ ?_
  rintro r (_ | ⟨_, _ | ⟨_, _ | ⟨_, ⟨⟩⟩⟩⟩)
  · rintro key ⟨⟩
  · trivial
  · rintro m ⟨⟩
    exact Set.mem_singleton _

end Asked

end Embernet
