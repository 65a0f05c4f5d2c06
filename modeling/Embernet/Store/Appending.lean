import Embernet.Model.Lenient
import Embernet.Store.Ownership
/-!
# Appending — the read after an append

The history readers take lines leniently, and the appenders write behind
whatever bytes there are. So a history file whose last line is not closed
is read, and appended to, and then no longer read: the first new record is
on the last line. What is appended is read back exactly if nothing is
appended, or that line holds nothing but white space of JSON.
-/

set_option autoImplicit false

namespace Embernet

open Ndjson Primitives

/-! ## The files that are appended to -/

/-- The bytes of a channel's `policy.ndjson`. -/
def policyFile (chan : ChannelRef) (d : Datadir) : Bytes :=
  (d.channels[chan.fullName]?.bind Dir.policyLog).getD []

/-- The bytes of its `moderation.ndjson`. -/
def moderationFile (chan : ChannelRef) (d : Datadir) : Bytes :=
  (d.channels[chan.fullName]?.bind Dir.moderationLog).getD []

/-- Behind its last line feed the file has nothing but white space of
JSON. -/
def EndsBlank (file : Bytes) : Prop := (openTail file).all isJsonSpace = true

/-- The operations that append to the policy history. -/
def StoreOp.appendsPolicy : StoreOp → Bool
  | .restrictChannel .. | .grantRole .. | .revokeRole .. | .transferOwnership ..
  | .setChannelVisibility .. | .appendRemotePolicyHistory _ => true
  | _ => false

/-- The operations that append to the moderation history. -/
def StoreOp.appendsModeration : StoreOp → Bool
  | .tombstoneMessage .. | .restoreMessage .. | .appendRemoteModerationHistory _ => true
  | _ => false

/-- The file of a directory that is there. -/
theorem policyFile_of_getElem? {chan : ChannelRef} {d : Datadir} {dir : Dir}
    (h : d.channels[chan.fullName]? = some dir) : policyFile chan d = dir.policyLog.getD [] := by
  rw [policyFile, h]
  rfl

/-- The moderation file of a directory that is there. -/
theorem moderationFile_of_getElem? {chan : ChannelRef} {d : Datadir} {dir : Dir}
    (h : d.channels[chan.fullName]? = some dir) :
    moderationFile chan d = dir.moderationLog.getD [] := by
  rw [moderationFile, h]
  rfl

/-- What was appended is told by the file. -/
theorem records_cancel {α : Type} (C : Codec α) {file : Bytes} {as bs : List α}
    (h : file ++ C.records as = file ++ C.records bs) : as = bs := by
  have hparse := parse_records C bs
  rw [← List.append_cancel_left h, parse_records C as] at hparse
  exact Except.ok.inj hparse

section Appending

variable [Primitives] {chan : ChannelRef} {d d' : Datadir} {dir dir' : Dir} {op : StoreOp}
  {P E N : List PolicyEvent} {M K : List ModerationEvent}

/-! ## Policy histories -/

/-- A policy history is read from its file alone. -/
theorem readPolicyLog_congr (h : dir'.policyLog = dir.policyLog) :
    readPolicyLog chan dir' = readPolicyLog chan dir := by
  simp only [readPolicyLog, h]

/-- **The read after policy events were appended.** -/
theorem readPolicyHistory_append_iff (hskip : SkipsSpace readPolicyEvent)
    (hdir : d.channels[chan.fullName]? = some dir) (hE : readPolicyLog chan dir = .ok E)
    (hderived : ∃ policy, derivePolicy chan (E ++ N) = .ok policy)
    (hdir' : d'.channels[chan.fullName]? = some dir')
    (hfile : dir'.policyLog.getD [] = dir.policyLog.getD [] ++ policyCodec.records N) :
    readPolicyHistory chan d' = .ok (E ++ N) ↔ N = [] ∨ EndsBlank (policyFile chan d) := by
  have hparse := parse_append_iff policyCodec hskip (readPolicyLog_ok.1 hE).1 N
  rw [readPolicyHistory_of_getElem? hdir', readPolicyLog_ok, hfile, policyFile_of_getElem? hdir,
    EndsBlank, ← hparse, and_iff_left hderived]
  rfl

/-- What records appended to a history are in its file. -/
theorem getD_appendPolicyRecords (events : List PolicyEvent) (policy : ChannelPolicy) (dir : Dir) :
    (appendPolicyRecords events policy dir).policyLog.getD [] =
      dir.policyLog.getD [] ++ policyCodec.records events := by
  cases events with
  | nil => simp [appendPolicyRecords]
  | cons e events => simp [appendPolicyRecords]

/-- The law for the policy history. -/
theorem policy_reads_on_iff (hskip : SkipsSpace readPolicyEvent) (hop : op.appendsPolicy = true)
    (hE : readPolicyHistory chan d = .ok E)
    (hU : ∀ remote, op = .appendRemotePolicyHistory remote →
      Set.InjOn blake3 (policyPayloads E ∪ policyPayloads remote)) :
    ∃ N, policyFile chan (op.exec chan d) = policyFile chan d ++ policyCodec.records N ∧
      (readPolicyHistory chan (op.exec chan d) = .ok (E ++ N) ↔
        N = [] ∨ EndsBlank (policyFile chan d)) := by
  obtain ⟨dir, hdir, hlog⟩ := readPolicyHistory_ok.1 hE
  obtain ⟨files, hchange, dir', hdir', hfiles⟩ := history_change op hdir
  have hpolicyLog : dir'.policyLog = files.policyLog := congrArg HistoryFiles.policyLog hfiles
  rw [policyFile_of_getElem? hdir']
  have hread {N : List PolicyEvent} (hderived : ∃ policy, derivePolicy chan (E ++ N) = .ok policy)
      (hfile : files.policyLog.getD [] = dir.policyLog.getD [] ++ policyCodec.records N) :
      ∃ N, dir'.policyLog.getD [] = policyFile chan d ++ policyCodec.records N ∧
        (readPolicyHistory chan (op.exec chan d) = .ok (E ++ N) ↔
          N = [] ∨ EndsBlank (policyFile chan d)) := by
    rw [← hpolicyLog] at hfile
    rw [policyFile_of_getElem? hdir, hfile]
    refine ⟨N, rfl, ?_⟩
    rw [← policyFile_of_getElem? hdir]
    exact readPolicyHistory_append_iff hskip hdir hlog hderived hdir' hfile
  obtain ⟨policy, hpolicy⟩ := (readPolicyLog_ok.1 hlog).2
  have hsame : ∃ policy, derivePolicy chan (E ++ []) = .ok policy :=
    ⟨policy, by rwa [List.append_nil]⟩
  cases hchange with
  | unchanged | policyRebuilt _ _ _ | moderationAction _ _ | moderationRemote _ _ _ _
  | moderationResolved _ _ _ => exact hread hsame (List.append_nil _).symm
  | @policyAction _ _ _ _ _ added _ written hcurrent _ _ hderived =>
    obtain rfl := Except.ok.inj (hlog.symm.trans hcurrent)
    exact hread ⟨_, hderived⟩ (getD_appendPolicyRecords added written dir.histories.dir)
  | @policyRemote remote _ written hremote _ hcurrent hderived hpre =>
    obtain rfl := Except.ok.inj (hlog.symm.trans hcurrent)
    have hexchange := derivePolicy_exchange (hU _ hremote) hpolicy hderived Set.subset_union_left
      Set.subset_union_right (idPrefix_iff.1 hpre)
    exact hread ⟨_, hexchange⟩ (getD_appendPolicyRecords _ written dir.histories.dir)
  | policyResolved hresolve _ _ _ _ =>
    rw [hresolve] at hop
    cases hop

/-! ## Moderation histories -/

/-- The moderation history of a directory that is there. -/
theorem readModerationHistory_of_getElem? (hdir : d.channels[chan.fullName]? = some dir) :
    readModerationHistory chan d = readModerationLog chan dir d := by
  rw [readModerationHistory, Query.bind_apply, openDir_ok.2 hdir]
  rfl

/-- A moderation history is read from its file and the policy history's. -/
theorem readModerationHistory_congr (hdir : d.channels[chan.fullName]? = some dir)
    (hdir' : d'.channels[chan.fullName]? = some dir') (hpolicy : dir'.policyLog = dir.policyLog)
    (hmoderation : dir'.moderationLog = dir.moderationLog) :
    readModerationHistory chan d' = readModerationHistory chan d := by
  rw [readModerationHistory_of_getElem? hdir', readModerationHistory_of_getElem? hdir,
    readModerationLog, readModerationLog, hmoderation]
  cases dir.moderationLog with
  | none => rfl
  | some bytes =>
    simp only [Query.bind_apply, Query.lift_apply, Query.pure_apply,
      deriveModeration_of_getElem? hdir, deriveModeration_of_getElem? hdir',
      readPolicyLog_congr hpolicy]

/-- What records appended to a moderation are in its file. -/
theorem getD_appendModerationRecords (events : List ModerationEvent) (state : ModerationState)
    (dir : Dir) : (appendModerationRecords events state dir).moderationLog.getD [] =
      dir.moderationLog.getD [] ++ moderationCodec.records events := by
  cases events with
  | nil => simp [appendModerationRecords]
  | cons e events => simp [appendModerationRecords]

/-- **The read after moderation events were appended.** -/
theorem readModerationHistory_append_iff (hskip : SkipsSpace readModerationEvent)
    (hdir : d.channels[chan.fullName]? = some dir) (hM : HasModeration chan dir.histories P M)
    (hderived : ∃ state, deriveModerationUnder chan P (M ++ K) = .ok state)
    (hdir' : d'.channels[chan.fullName]? = some dir') (hpolicy : dir'.policyLog = dir.policyLog)
    (hfile : dir'.moderationLog.getD [] = dir.moderationLog.getD [] ++ moderationCodec.records K) :
    readModerationHistory chan d' = .ok (M ++ K) ↔ K = [] ∨ EndsBlank (moderationFile chan d) := by
  have hP : readPolicyLog chan dir' = .ok P := (readPolicyLog_congr hpolicy).trans hM.policy
  have hparse := parse_append_iff moderationCodec hskip (parseHistory_ok.1 hM.moderation) K
  rw [readModerationHistory_of_getElem? hdir', readModerationLog_ok hdir' hP, moderationFile_of_getElem? hdir, EndsBlank]
  refine Iff.trans ⟨fun h => ?_, fun h => ⟨hP, parseHistory_ok.2 ?_, hderived⟩⟩ hparse
  · have := parseHistory_ok.1 h.moderation
    rwa [Dir.histories, hfile] at this
  · rw [Dir.histories, hfile]
    exact h

omit [Primitives] in
/-- To moderate writes the index and the moderation. -/
theorem mem_parts_of_appendsModeration (h : op.appendsModeration = true) {part : Part}
    (hpart : part ∈ op.parts) : part = .index ∨ part = .moderation := by
  cases op with
  | tombstoneMessage => simpa [StoreOp.parts] using hpart
  | restoreMessage => exact .inr (List.mem_singleton.1 hpart)
  | appendRemoteModerationHistory => exact .inr (List.mem_singleton.1 hpart)
  | _ => cases h

/-- Moderating leaves the policy history alone. -/
theorem policyLog_of_appendsModeration (h : op.appendsModeration = true)
    (hdir : d.channels[chan.fullName]? = some dir)
    (hdir' : (op.exec chan d).channels[chan.fullName]? = some dir') :
    dir'.policyLog = dir.policyLog := by
  have hkeeps : Op.Keeps (HasDir chan.fullName (·.policyLog = dir.policyLog)) (op.op chan) := by
    refine keeps_storeOp fun part hpart => ?_
    rcases mem_parts_of_appendsModeration h hpart with rfl | rfl
    · exact fun _ _ _ _ _ _ hlog => There.of_some.2 (There.of_some.1 hlog)
    · exact fun _ _ _ _ hlog => hlog.map fun _ hlog => hlog
  obtain ⟨dir₁, hdir₁, hlog⟩ := hkeeps d ⟨dir, hdir, rfl⟩
  obtain rfl := Option.some.inj (hdir'.symm.trans hdir₁)
  exact hlog

/-- The law for the moderation history. -/
theorem moderation_reads_on_iff (hskip : SkipsSpace readModerationEvent)
    (hop : op.appendsModeration = true) (hM : readModerationHistory chan d = .ok M)
    (hU : ∀ remote, op = .appendRemoteModerationHistory remote →
      Set.InjOn blake3 (moderationPayloads M ∪ moderationPayloads remote)) :
    ∃ K, moderationFile chan (op.exec chan d) =
        moderationFile chan d ++ moderationCodec.records K ∧
      (readModerationHistory chan (op.exec chan d) = .ok (M ++ K) ↔
        K = [] ∨ EndsBlank (moderationFile chan d)) := by
  obtain ⟨dir, hdir, -⟩ : ∃ dir, d.channels[chan.fullName]? = some dir ∧
      readModerationLog chan dir d = .ok M := by
    simpa only [readModerationHistory, Query.bind_ok, openDir_ok, Query.monadLift_apply] using hM
  obtain ⟨files, hchange, dir', hdir', hfiles⟩ := history_change op hdir
  have hmoderationLog : dir'.moderationLog = files.moderationLog :=
    congrArg HistoryFiles.moderationLog hfiles
  have hpolicyLog := policyLog_of_appendsModeration hop hdir hdir'
  rw [moderationFile_of_getElem? hdir']
  -- nothing was appended, or what a change says
  have hsame (hlog : files.moderationLog = dir.moderationLog) :
      ∃ K, dir'.moderationLog.getD [] = moderationFile chan d ++ moderationCodec.records K ∧
        (readModerationHistory chan (op.exec chan d) = .ok (M ++ K) ↔
          K = [] ∨ EndsBlank (moderationFile chan d)) := by
    refine ⟨[], ?_, ?_⟩
    · rw [hmoderationLog, hlog, moderationFile_of_getElem? hdir]
      exact (List.append_nil _).symm
    · rw [readModerationHistory_congr hdir hdir' hpolicyLog (hmoderationLog.trans hlog), hM,
        List.append_nil]
      simp
  have hread {P : List PolicyEvent} {K : List ModerationEvent}
      (hcurrent : HasModeration chan dir.histories P M)
      (hderived : ∃ state, deriveModerationUnder chan P (M ++ K) = .ok state)
      (hfile : files.moderationLog.getD [] =
        dir.moderationLog.getD [] ++ moderationCodec.records K) :
      ∃ K, dir'.moderationLog.getD [] = moderationFile chan d ++ moderationCodec.records K ∧
        (readModerationHistory chan (op.exec chan d) = .ok (M ++ K) ↔
          K = [] ∨ EndsBlank (moderationFile chan d)) := by
    rw [← hmoderationLog] at hfile
    refine ⟨K, by rw [hfile, moderationFile_of_getElem? hdir], ?_⟩
    exact readModerationHistory_append_iff hskip hdir hcurrent hderived hdir' hpolicyLog hfile
  have hcurrent {P : List PolicyEvent} {current : List ModerationEvent}
      (h : HasModeration chan dir.histories P current) : current = M := by
    have hlog := (readModerationLog_ok hdir h.policy).2 h
    rw [readModerationHistory_of_getElem? hdir] at hM
    exact Except.ok.inj (hlog.symm.trans hM)
  cases hchange with
  | unchanged | policyAction _ _ _ _ | policyRemote _ _ _ _ _ | policyRebuilt _ _ _
  | policyResolved _ _ _ _ _ => exact hsame rfl
  | @moderationAction event _ _ written hbefore hderived =>
    obtain rfl := hcurrent hbefore
    exact hread hbefore ⟨_, hderived⟩
      (getD_appendModerationRecords [event] written dir.histories.dir)
  | @moderationRemote remote _ _ written hremote hbefore hderived hpre =>
    obtain rfl := hcurrent hbefore
    obtain ⟨state, hstate⟩ := hbefore.derived
    have hexchange := deriveModeration_exchange (hU _ hremote) hstate hderived
      Set.subset_union_left Set.subset_union_right (idPrefix_iff.1 hpre)
    exact hread hbefore ⟨_, hexchange⟩
      (getD_appendModerationRecords _ written dir.histories.dir)
  | moderationResolved hresolve _ _ =>
    rw [hresolve] at hop
    cases hop

/-! ## Both -/

/-- **What the readers accept, the appenders extend exactly where the file
ends blank.** For every content of a history file that is read, and every
operation that appends to it, whether it returns or fails: the file then
has the records of some events behind what it had, and the next read gives
the events there were and those, exactly if there are none, or behind the
last line feed the file had nothing but white space of JSON. -/
theorem append_reads_on_iff (hpolicy : SkipsSpace readPolicyEvent)
    (hmoderation : SkipsSpace readModerationEvent) :
    (∀ (op : StoreOp) (E : List PolicyEvent), op.appendsPolicy = true →
      readPolicyHistory chan d = .ok E →
      (∀ remote, op = .appendRemotePolicyHistory remote →
        Set.InjOn blake3 (policyPayloads E ∪ policyPayloads remote)) →
      ∃ N, policyFile chan (op.exec chan d) = policyFile chan d ++ policyCodec.records N ∧
        (readPolicyHistory chan (op.exec chan d) = .ok (E ++ N) ↔
          N = [] ∨ EndsBlank (policyFile chan d))) ∧
    ∀ (op : StoreOp) (M : List ModerationEvent), op.appendsModeration = true →
      readModerationHistory chan d = .ok M →
      (∀ remote, op = .appendRemoteModerationHistory remote →
        Set.InjOn blake3 (moderationPayloads M ∪ moderationPayloads remote)) →
      ∃ K, moderationFile chan (op.exec chan d) =
          moderationFile chan d ++ moderationCodec.records K ∧
        (readModerationHistory chan (op.exec chan d) = .ok (M ++ K) ↔
          K = [] ∨ EndsBlank (moderationFile chan d)) :=
  ⟨fun _ _ hop hE hU => policy_reads_on_iff hpolicy hop hE hU,
    fun _ _ hop hM hU => moderation_reads_on_iff hmoderation hop hM hU⟩

end Appending

/-! ## A history whose last line is open -/

section OpenHistory

open Simulated

attribute [local instance] lenient

/-- The lenient readers skip white space. -/
theorem skipsSpace_policyEvent : SkipsSpace lenient.readPolicyEvent :=
  skipsSpace_readStripped fun _ => rfl

/-- The lenient reader of moderation events skips white space too. -/
theorem skipsSpace_moderationEvent : SkipsSpace lenient.readModerationEvent :=
  skipsSpace_readStripped fun _ => rfl

/-- The owner grants a role, behind the restriction. -/
def grantedNext : PolicyEvent :=
  policyEvent general 1 0 (some (restrictedAt 0).id) (.grant .writer (identity 2).publicKey)

/-- The owner restricts the channel. -/
theorem derivePolicy_restricted : derivePolicy general [restrictedAt 0] = .ok (ownedPolicy []) :=
  derivePolicy_restrictedAt 0

/-- The owner then grants the role. -/
theorem derivePolicy_granted : derivePolicy general ([restrictedAt 0] ++ [grantedNext]) =
    .ok { ownedPolicy [] with writers := [(identity 2).publicKey] } :=
  derivePolicy_policyChain general [(1, .restrict (identity 1).publicKey),
    (1, .grant .writer (identity 2).publicKey)] (by decide +kernel)

/-- A directory whose policy file is these bytes. -/
def dirOf (file : Bytes) : Dir := { newDir with policyLog := some file }

/-- A node whose channel has this policy file. -/
def nodeOf (file : Bytes) : Datadir := newNode.put general.fullName (dirOf file)

/-- The channel's log is empty. -/
theorem openLog_nodeOf (file : Bytes) : openLog general (nodeOf file) = .ok (dirOf file, []) :=
  openLog_ok.2 ⟨getElem?_put_self _ _ _, rfl⟩

/-- **A record without its line feed is read, and lost with the next.** -/
theorem open_line_not_extended : ∃ d' policy,
    readPolicyHistory general (nodeOf (policyCodec.write (restrictedAt 0))) =
        .ok [restrictedAt 0] ∧
      (appendRemotePolicyHistory general [restrictedAt 0, grantedNext]).exec
        (nodeOf (policyCodec.write (restrictedAt 0))) = (.ok policy, d') ∧
      policyFile general d' = policyFile general (nodeOf (policyCodec.write (restrictedAt 0))) ++
        policyCodec.records [grantedNext] ∧
      readPolicyHistory general d' ≠ .ok ([restrictedAt 0] ++ [grantedNext]) := by
  set file := policyCodec.write (restrictedAt 0)
  have hopen := openLog_nodeOf file
  have hdir := (openLog_ok.1 hopen).1
  have hread : readPolicyLog general (dirOf file) = .ok [restrictedAt 0] :=
    readPolicyLog_ok.2 ⟨parse_write policyCodec (restrictedAt 0), _, derivePolicy_restricted⟩
  have hpre : idPrefix PolicyEvent.id [restrictedAt 0] [restrictedAt 0, grantedNext] = true := by
    simp [idPrefix]
  have hexec := exec_appendRemotePolicyHistory hopen hread derivePolicy_granted hpre
  refine ⟨_, _, readPolicyHistory_ok.2 ⟨_, hdir, hread⟩, hexec, ?_, fun hafter => ?_⟩
  · rw [policyFile_of_getElem? (getElem?_put_self _ _ _), policyFile_of_getElem? hdir,
      getD_appendPolicyRecords]
    rfl
  · have hends := (readPolicyHistory_append_iff skipsSpace_policyEvent hdir hread
      ⟨_, derivePolicy_granted⟩ (getElem?_put_self _ _ _)
      (getD_appendPolicyRecords [grantedNext] _ _)).1 hafter
    rcases hends with hnil | hends
    · cases hnil
    · -- the line holds a record, and so no white space only
      rw [policyFile_of_getElem? hdir, EndsBlank] at hends
      have hblank := blank_append_of_isJsonSpace hends []
      rw [List.append_nil, show (dirOf file).policyLog.getD [] = file from rfl, openTail_write,
        (policyCodec.visible (restrictedAt 0)).1] at hblank
      cases hblank

/-- A channel whose policy history ends in a line of one space, which is all
its moderation history has. -/
noncomputable def blankLineDir : Dir :=
  { dirOf (policyCodec.records [restrictedAt 0] ++ [0x20]) with moderationLog := some [0x20] }

/-- A node with that channel. -/
noncomputable def blankLineNode : Datadir := newNode.put general.fullName blankLineDir

/-- The log of that channel is empty too. -/
theorem openLog_blankLineNode : openLog general blankLineNode = .ok (blankLineDir, []) :=
  openLog_ok.2 ⟨getElem?_put_self _ _ _, rfl⟩

/-- The line is no event. -/
theorem readPolicyLog_blankLineDir : readPolicyLog general blankLineDir = .ok [restrictedAt 0] := by
  refine readPolicyLog_ok.2 ⟨?_, _, derivePolicy_restricted⟩
  change parse policyCodec.read (policyCodec.records [restrictedAt 0] ++ [0x20]) =
    .ok ([restrictedAt 0] ++ [])
  rw [parse, splitLines_append (policyCodec.terminated_records _), policyCodec.splitLines_records]
  exact parseLines_append _ (parseLines_records policyCodec 1 _) rfl

/-- The line of one space is no event. -/
theorem readModerationLog_blankLineDir : readModerationLog general blankLineDir blankLineNode = .ok [] := by
  refine (readModerationLog_ok (openLog_ok.1 openLog_blankLineNode).1 readPolicyLog_blankLineDir).2
    ⟨readPolicyLog_blankLineDir, parseHistory_ok.2 rfl, _, rfl⟩

/-- Both files end blank. -/
theorem endsBlank_policyFile_blankLineNode : EndsBlank (policyFile general blankLineNode) := by
  rw [policyFile_of_getElem? (openLog_ok.1 openLog_blankLineNode).1, EndsBlank]
  change (openTail (policyCodec.records [restrictedAt 0] ++ [0x20])).all isJsonSpace = true
  rw [openTail_append (policyCodec.terminated_records _) (by decide)]
  rfl

/-- The moderation has nothing else. -/
theorem endsBlank_moderationFile_blankLineNode : EndsBlank (moderationFile general blankLineNode) := by
  rw [moderationFile_of_getElem? (openLog_ok.1 openLog_blankLineNode).1]
  rfl

/-- The two policy events have two hashes. -/
theorem hash_injOn_granted : Set.InjOn blake3
    (policyPayloads [restrictedAt 0] ∪ policyPayloads [restrictedAt 0, grantedNext]) := by
  have hsubset : policyPayloads [restrictedAt 0] ⊆ policyPayloads [restrictedAt 0, grantedNext] :=
    fun b ⟨e, he, hb⟩ => ⟨e, List.mem_cons.2 (.inl (List.mem_singleton.1 he)), hb⟩
  have happart : ∀ e ∈ [restrictedAt 0, grantedNext], ∀ e' ∈ [restrictedAt 0, grantedNext],
      Simulated.hash e.payload.compact = Simulated.hash e'.payload.compact →
        e.payload.compact = e'.payload.compact := by
    decide +kernel
  rw [Set.union_eq_right.2 hsubset]
  rintro _ ⟨e, he, rfl⟩ _ ⟨e', he', rfl⟩ hhash
  exact happart e he e' he' hhash

/-- The tombstone is one payload. -/
theorem hash_injOn_tombstone : Set.InjOn blake3
    (moderationPayloads [] ∪ moderationPayloads [tombstoneAt 0]) := by
  have hone : ∀ b ∈ moderationPayloads [] ∪ moderationPayloads [tombstoneAt 0],
      b = (tombstoneAt 0).payload.compact := by
    rintro b (⟨e, he, -⟩ | ⟨e, he, rfl⟩)
    · cases he
    · rw [List.mem_singleton.1 he]
  exact fun b hb b' hb' _ => (hone b hb).trans (hone b' hb').symm

/-- What a peer has beyond the first event is written behind the line. -/
theorem policyFile_blankLineNode_appended {N : List PolicyEvent} {policy : ChannelPolicy}
    (h : derivePolicy general ([restrictedAt 0] ++ N) = .ok policy) :
    policyFile general (StoreOp.exec general
        (.appendRemotePolicyHistory ([restrictedAt 0] ++ N)) blankLineNode) =
      policyFile general blankLineNode ++ policyCodec.records N := by
  have hexec := exec_appendRemotePolicyHistory openLog_blankLineNode readPolicyLog_blankLineDir h
    (by simp [idPrefix])
  rw [StoreOp.exec, StoreOp.op, ← eq_exec_ignore hexec,
    policyFile_of_getElem? (getElem?_put_self _ _ _), getD_appendPolicyRecords,
    policyFile_of_getElem? (openLog_ok.1 openLog_blankLineNode).1, List.drop_left]

/-- And a peer's moderation, all of it. -/
theorem moderationFile_blankLineNode_appended {K : List ModerationEvent} {state : ModerationState}
    (h : deriveModerationUnder general [restrictedAt 0] K = .ok state) :
    moderationFile general (StoreOp.exec general (.appendRemoteModerationHistory K) blankLineNode) =
      moderationFile general blankLineNode ++ moderationCodec.records K := by
  have hdir := (openLog_ok.1 openLog_blankLineNode).1
  have hderive : deriveModeration general K blankLineNode = .ok state := by
    rw [deriveModeration_of_getElem? hdir, readPolicyLog_blankLineDir]
    exact h
  have hexec := exec_appendRemoteModerationHistory openLog_blankLineNode readModerationLog_blankLineDir
    hderive (by simp [idPrefix])
  rw [StoreOp.exec, StoreOp.op, ← eq_exec_ignore hexec,
    moderationFile_of_getElem? (getElem?_put_self _ _ _), getD_appendModerationRecords,
    moderationFile_of_getElem? hdir]
  rfl

/-- The law for that channel, where a peer's events are appended to either
history: both are read back. -/
theorem append_reads_on_iff_spaced :
    readPolicyHistory general (StoreOp.exec general
        (.appendRemotePolicyHistory ([restrictedAt 0] ++ [grantedNext])) blankLineNode) =
      .ok ([restrictedAt 0] ++ [grantedNext]) ∧
    readModerationHistory general (StoreOp.exec general
        (.appendRemoteModerationHistory [tombstoneAt 0]) blankLineNode) =
      .ok ([] ++ [tombstoneAt 0]) := by
  have hdir := (openLog_ok.1 openLog_blankLineNode).1
  have hmoderation := (readModerationHistory_of_getElem? hdir).trans readModerationLog_blankLineDir
  constructor
  · obtain ⟨N, hfile, hreads⟩ :=
      (append_reads_on_iff skipsSpace_policyEvent skipsSpace_moderationEvent).1
        (.appendRemotePolicyHistory ([restrictedAt 0] ++ [grantedNext])) [restrictedAt 0] rfl
        (readPolicyHistory_ok.2 ⟨_, hdir, readPolicyLog_blankLineDir⟩)
        (by rintro _ ⟨⟩; exact hash_injOn_granted)
    obtain rfl := records_cancel policyCodec
      ((policyFile_blankLineNode_appended derivePolicy_granted).symm.trans hfile)
    exact hreads.2 (.inr endsBlank_policyFile_blankLineNode)
  · obtain ⟨state, hstate⟩ := exists_state_tombstoneAt 0
    have hU := hash_injOn_tombstone
    generalize [tombstoneAt 0] = events at hstate hU ⊢
    obtain ⟨K, hfile, hreads⟩ :=
      (append_reads_on_iff skipsSpace_policyEvent skipsSpace_moderationEvent).2
        (.appendRemoteModerationHistory events) [] rfl hmoderation (by rintro _ ⟨⟩; exact hU)
    obtain rfl := records_cancel moderationCodec
      ((moderationFile_blankLineNode_appended hstate).symm.trans hfile)
    exact hreads.2 (.inr endsBlank_moderationFile_blankLineNode)

end OpenHistory

end Embernet
