import Embernet.Store.Directories
/-!
# Histories — what an operation does to the two histories of a channel

Most operations leave both histories alone. The others write one of them,
and `HistoryChange` says for each how: an action is signed and appended, a
remote extension is appended, the policy file is rewritten, or a saved
fork takes the history's place. `history_change` is the case analysis,
once for all operations; what follows from it is proved over these cases
and looks at no operation again.
-/

set_option autoImplicit false

namespace Embernet

open Primitives

/-- The files that the histories of a channel are read from. -/
structure HistoryFiles where
  policyLog : Option Bytes
  policyJson : JsonFile ChannelPolicy
  moderationLog : Option Bytes

/-- Those of a directory. -/
def Dir.histories (dir : Dir) : HistoryFiles := ⟨dir.policyLog, dir.policyJson, dir.moderationLog⟩

/-- A directory with these files and no other. -/
def HistoryFiles.dir (files : HistoryFiles) : Dir :=
  { policyLog := files.policyLog, policyJson := files.policyJson,
    moderationLog := files.moderationLog }

/-- The history files of a channel that is there. -/
def HasHistories (chan : ChannelRef) (files : HistoryFiles) (d : Datadir) : Prop :=
  ∃ dir, d.channels[chan.fullName]? = some dir ∧ dir.histories = files

/-! ## Operations that leave the histories alone -/

variable {chan : ChannelRef} {d : Datadir} {α β : Type}

/-- The operation leaves the history files of the channel alone. -/
def Spares (chan : ChannelRef) (x : StoreM α) : Prop :=
  ∀ files d, HasHistories chan files d → HasHistories chan files (x.exec d).2

/-- Each file for itself is enough. -/
theorem Spares.of_keeps {x : StoreM α}
    (h : ∀ files, Op.Keeps (HasDir chan.fullName (·.histories = files)) x) : Spares chan x := h

/-- The result of an operation is no part of what it does. -/
theorem Spares.ignore {x : StoreM α} (hx : Spares chan x) : Spares chan (ignore x) :=
  fun files =>
    have hkeeps : Op.Keeps (HasDir chan.fullName (·.histories = files)) x := hx files
    keeps_ignore hkeeps

/-- No directory of forks is the channel's own. -/
theorem conflictDir_ne {suffix : String} (hsuffix : suffix ≠ "") :
    chan.fullName ++ suffix ≠ chan.fullName := by
  intro h
  exact hsuffix (by simpa using h)

/-- No directory of policy forks is the channel's own. -/
theorem policyConflictDir_ne (chan : ChannelRef) : policyConflictDir chan ≠ chan.fullName :=
  conflictDir_ne (by decide)

/-- No directory of moderation forks is the channel's own. -/
theorem moderationConflictDir_ne (chan : ChannelRef) :
    moderationConflictDir chan ≠ chan.fullName :=
  conflictDir_ne (by decide)

/-- Making a channel spares the histories. -/
theorem spares_createChannel : Spares chan (createChannel chan) :=
  .of_keeps fun _ => keeps_createChannel (fun _ => .made) fun _ _ h => h.map fun _ h => h

section Spared

variable [Primitives]

/-- The index is no part of the histories. -/
theorem histories_indexFree {files : HistoryFiles} :
    IndexFree (There (·.histories = files)) := by
  intro dir _ _ _ _ h
  have hfiles : dir.histories = files := There.of_some.1 h
  exact There.of_some.2 hfiles

/-- A policy fork is saved beside them. -/
theorem spares_savePolicyConflict (events : List PolicyEvent) :
    Spares chan (savePolicyConflict chan events) :=
  .of_keeps fun _ =>
    keeps_savePolicyConflict (fun _ => .made) (fun _ _ _ _ h => h.map fun _ h => h) events

/-- A moderation fork is saved beside them. -/
theorem spares_saveModerationConflict (events : List ModerationEvent) :
    Spares chan (saveModerationConflict chan events) :=
  .of_keeps fun _ =>
    keeps_saveModerationConflict (fun _ => .made) (fun _ _ _ _ h => h.map fun _ h => h) events

/-- Making a key spares them. -/
theorem spares_generateChannelKey (raw : Bytes) :
    Spares chan (generateChannelKey chan.fullName raw) :=
  .of_keeps fun _ => keeps_generateChannelKey (fun _ _ _ h => h.map fun _ h => h) raw

/-- Accepting a key spares them. -/
theorem spares_acceptKeyOffers (recipient : KeypairFile) (offers : List KeyOffer) :
    Spares chan (acceptKeyOffers chan.fullName recipient offers) :=
  .of_keeps fun _ => keeps_acceptKeyOffers (fun _ _ _ h => h.map fun _ h => h) recipient offers

/-- Reading through the index writes the index at most. -/
theorem spares_readIndexed (f : Bytes → Index → Except Error α) :
    Spares chan (readIndexed chan f) :=
  .of_keeps fun _ => keeps_readIndexed (fun _ => histories_indexFree) f

/-- An append writes the log and the index. -/
theorem spares_appendMessage (env : Envelope) : Spares chan (appendMessage chan env) :=
  .of_keeps fun _ => keeps_appendMessage (fun _ _ _ _ h => h.map fun _ h => h) env

/-- Reading the tail writes the index at most. -/
theorem spares_readChannelTail (n : ℕ) (includeTombstoned : Bool) :
    Spares chan (readChannelTail chan n includeTombstoned) :=
  .of_keeps fun _ => keeps_readChannelTail (fun _ => histories_indexFree) n includeTombstoned

/-- Signing writes the keyring at most. -/
theorem spares_signMessageForChannel (signer : KeypairFile) (message : Message)
    (raw nonce : Bytes) : Spares chan (signMessageForChannel chan signer message raw nonce) :=
  .of_keeps fun _ =>
    keeps_signMessageForChannel (fun _ _ _ h => h.map fun _ h => h) signer message raw nonce

end Spared

/-! ## What the others do -/

variable [Primitives]

/-- The policy history and the moderation history in the files of a
channel, the second accepted under the first. -/
structure HasModeration (chan : ChannelRef) (files : HistoryFiles) (P : List PolicyEvent)
    (M : List ModerationEvent) : Prop where
  policy : readPolicyLog chan files.dir = .ok P
  moderation : parseHistory readModerationEvent "moderation.ndjson" "moderation"
    (files.moderationLog.getD []) = .ok M
  derived : ∃ state, deriveModerationUnder chan P M = .ok state

/-- **What an operation does to the histories.** -/
inductive HistoryChange (chan : ChannelRef) (op : StoreOp) (d : Datadir) (files : HistoryFiles) :
    HistoryFiles → Prop
  | unchanged : HistoryChange chan op d files files
  /-- A local action was signed and appended, behind the adoption of the
  cached policy where the history was empty and that policy restricted. -/
  | policyAction {signer : KeypairFile} {now now' : Int64} {action : PolicyAction}
      {current added : List PolicyEvent} {cached policy : ChannelPolicy} :
      readPolicyLog chan files.dir = .ok current →
      (current = [] → readPolicyCache files.dir = .ok cached) →
      newPolicyEvents chan signer now now' action current cached = .ok added →
      derivePolicy chan (current ++ added) = .ok policy →
      HistoryChange chan op d files (appendPolicyRecords added policy files.dir).histories
  /-- A remote history was taken in. -/
  | policyRemote {remote current : List PolicyEvent} {policy : ChannelPolicy} :
      op = .appendRemotePolicyHistory remote → (∃ opened, openLog chan d = .ok opened) →
      readPolicyLog chan files.dir = .ok current →
      derivePolicy chan remote = .ok policy → idPrefix PolicyEvent.id current remote = true →
      HistoryChange chan op d files
        (appendPolicyRecords (remote.drop current.length) policy files.dir).histories
  /-- The policy file was written from the history. -/
  | policyRebuilt {current : List PolicyEvent} {policy : ChannelPolicy} :
      op = .rebuildPolicyCache → readPolicyLog chan files.dir = .ok current →
      derivePolicy chan current = .ok policy →
      HistoryChange chan op d files { files with policyJson := .value policy }
  /-- A saved policy history took the place of the current one. -/
  | policyResolved {head : String} {events : List PolicyEvent} {policy : ChannelPolicy} :
      op = .resolvePolicyConflict head → (∃ opened, openLog chan d = .ok opened) →
      readSaved readPolicyEvent (policyConflictDir chan) head d = .ok events →
      events.getLast?.map PolicyEvent.id = some head → derivePolicy chan events = .ok policy →
      HistoryChange chan op d files
        { files with policyLog := some (policyCodec.records events), policyJson := .value policy }
  /-- A local moderation event was signed and appended. -/
  | moderationAction {event : ModerationEvent} {current : List ModerationEvent}
      {P : List PolicyEvent} {state : ModerationState} :
      HasModeration chan files P current →
      deriveModerationUnder chan P (current ++ [event]) = .ok state →
      HistoryChange chan op d files (appendModerationRecords [event] state files.dir).histories
  /-- A remote moderation history was taken in. -/
  | moderationRemote {remote current : List ModerationEvent} {P : List PolicyEvent}
      {state : ModerationState} :
      op = .appendRemoteModerationHistory remote → HasModeration chan files P current →
      deriveModerationUnder chan P remote = .ok state →
      idPrefix ModerationEvent.id current remote = true →
      HistoryChange chan op d files
        (appendModerationRecords (remote.drop current.length) state files.dir).histories
  /-- A saved moderation history took the place of the current one. -/
  | moderationResolved {head : String} {P : List PolicyEvent} {events : List ModerationEvent}
      {state : ModerationState} :
      op = .resolveModerationConflict head →
      readPolicyLog chan files.dir = .ok P → deriveModerationUnder chan P events = .ok state →
      HistoryChange chan op d files
        { files with moderationLog := some (moderationCodec.records events) }

variable {op : StoreOp}

/-- From a node whose channel is in `dir`, the operation changes the
histories in one of those ways, whether it returns or fails. -/
def Changes (chan : ChannelRef) (op : StoreOp) (d : Datadir) (dir : Dir) (d' : Datadir)
    (x : StoreM α) : Prop :=
  ∃ files, HistoryChange chan op d dir.histories files ∧ HasHistories chan files (x.exec d').2

variable {op : StoreOp} {dir : Dir} {d' : Datadir}

namespace Changes

/-- Who writes nothing changes nothing. -/
theorem none (hdir : d'.channels[chan.fullName]? = some dir) {x : StoreM α}
    (hx : (x.exec d').2 = d') : Changes chan op d dir d' x :=
  ⟨dir.histories, .unchanged, dir, by rw [hx, hdir], rfl⟩

/-- Who spares the histories does not change them. -/
theorem of_spares (hdir : d'.channels[chan.fullName]? = some dir) {x : StoreM α}
    (hx : Spares chan x) : Changes chan op d dir d' x :=
  ⟨dir.histories, .unchanged, hx _ d' ⟨dir, hdir, rfl⟩⟩

/-- A read before the rest. -/
theorem query (hdir : d'.channels[chan.fullName]? = some dir) {q : ReadM α} {f : α → StoreM β}
    (hf : ∀ a, q d' = .ok a → Changes chan op d dir d' (f a)) :
    Changes chan op d dir d' ((liftM q : StoreM α) >>= f) := by
  rw [Changes, Op.exec_query_bind]
  cases hq : q d' with
  | error e => exact none hdir (x := (Pure.pure () : StoreM Unit)) rfl
  | ok a => exact hf a hq

/-- A check before a change. -/
theorem except (hdir : d'.channels[chan.fullName]? = some dir) {r : Except Error α}
    {f : α → StoreM β} (hf : ∀ a, r = .ok a → Changes chan op d dir d' (f a)) :
    Changes chan op d dir d' ((liftM r : StoreM α) >>= f) := by
  rw [Changes, Op.exec_except_bind]
  cases hr : r with
  | error e => exact none hdir (x := (Pure.pure () : StoreM Unit)) rfl
  | ok a => exact hf a hr

/-- A check before a change, written as a condition. -/
theorem bailIf (hdir : d'.channels[chan.fullName]? = some dir) {c : Prop} [Decidable c] {e : Error}
    {f : Unit → StoreM β} (hf : ¬ c → Changes chan op d dir d' (f ())) :
    Changes chan op d dir d' ((bailIf c e : StoreM Unit) >>= f) := by
  rw [Changes, Op.exec_bailIf_bind]
  split
  · exact none hdir (x := (Pure.pure () : StoreM Unit)) rfl
  · exact hf ‹_›

/-- Whichever branch is taken. -/
theorem ite {c : Prop} [Decidable c] {x y : StoreM α} (hx : c → Changes chan op d dir d' x)
    (hy : ¬ c → Changes chan op d dir d' y) :
    Changes chan op d dir d' (if c then x else y) := by
  split
  · exact hx ‹_›
  · exact hy ‹_›

/-- Something before the rest that leaves the histories alone. -/
theorem after (hdir : d'.channels[chan.fullName]? = some dir) {x : StoreM α} {f : α → StoreM β}
    (hx : Spares chan x)
    (hf : ∀ a d₂ dir₂, d₂.channels[chan.fullName]? = some dir₂ → dir₂.histories = dir.histories →
      Changes chan op d dir₂ d₂ (f a)) :
    Changes chan op d dir d' (x >>= f) := by
  obtain ⟨dir₂, hdir₂, heq⟩ := hx _ d' ⟨dir, hdir, rfl⟩
  rw [Changes, Op.exec_bind]
  rcases hexec : x.exec d' with ⟨_ | a, d₂⟩ <;> rw [hexec] at hdir₂
  · exact ⟨dir.histories, .unchanged, dir₂, hdir₂, heq⟩
  · obtain ⟨files, hchange, hfiles⟩ := hf a d₂ dir₂ hdir₂ heq
    exact ⟨files, heq ▸ hchange, hfiles⟩

/-- The write at the end. -/
theorem write (hdir : d'.channels[chan.fullName]? = some dir) {f : Dir → Dir} {b : β}
    (hf : HistoryChange chan op d dir.histories (f dir).histories) :
    Changes chan op d dir d' (do modifyDir chan.fullName f; Pure.pure b) := by
  refine ⟨_, hf, f dir, ?_, rfl⟩
  rw [Op.exec_bind_of_ok (exec_modifyDir hdir), Op.exec_pure]
  exact getElem?_put_self _ _ _

/-- The result does not matter. -/
theorem ignore {x : StoreM α} (hx : Changes chan op d dir d' x) :
    Changes chan op d dir d' (ignore x) := by
  obtain ⟨files, hchange, hfiles⟩ := hx
  exact ⟨files, hchange, by rwa [exec_ignore]⟩

end Changes

/-- A moderation is derived under the directory's own policy history. -/
theorem deriveModeration_of_getElem? {M : List ModerationEvent}
    (h : d'.channels[chan.fullName]? = some dir) :
    deriveModeration chan M d' =
      (readPolicyLog chan dir >>= fun P => deriveModerationUnder chan P M) := by
  rw [deriveModeration, Query.bind_apply, readPolicyHistory, Query.bind_apply, openDir_ok.2 h]
  rfl

/-- A moderation derives only under a policy history that does. -/
theorem deriveModeration_ok {M : List ModerationEvent} {state : ModerationState}
    (h : d'.channels[chan.fullName]? = some dir) :
    deriveModeration chan M d' = .ok state ↔
      ∃ P, readPolicyLog chan dir = .ok P ∧ deriveModerationUnder chan P M = .ok state := by
  rw [deriveModeration_of_getElem? h, bind_eq_ok]

/-- The moderation log that is read back was accepted. -/
theorem readModerationLog_ok {M : List ModerationEvent} {P : List PolicyEvent}
    (h : d'.channels[chan.fullName]? = some dir) (hP : readPolicyLog chan dir = .ok P) :
    readModerationLog chan dir d' = .ok M ↔ HasModeration chan dir.histories P M := by
  rw [readModerationLog]
  cases hlog : dir.moderationLog with
  | none =>
    have hparse : parseHistory readModerationEvent "moderation.ndjson" "moderation" [] = .ok [] :=
      rfl
    constructor
    · rintro ⟨⟩
      exact ⟨hP, by simpa [Dir.histories, hlog] using hparse, _, deriveModerationUnder_nil⟩
    · rintro ⟨-, hM, -⟩
      rw [Dir.histories, hlog, Option.getD_none, hparse] at hM
      cases hM
      rfl
  | some bytes =>
    simp only [Query.bind_ok, Query.lift_apply, Query.pure_apply, deriveModeration_ok h, hP]
    constructor
    · rintro ⟨_, hparse, state, ⟨_, ⟨⟩, hstate⟩, ⟨⟩⟩
      exact ⟨hP, by simpa [Dir.histories, hlog] using hparse, state, hstate⟩
    · rintro ⟨-, hparse, state, hstate⟩
      refine ⟨M, ?_, state, ⟨P, rfl, hstate⟩, rfl⟩
      simpa [Dir.histories, hlog] using hparse

/-- A history file made of records reads back, where its events derive. -/
theorem readPolicyLog_records {dir : Dir} {events : List PolicyEvent} {derived : ChannelPolicy}
    (hlog : dir.policyLog = some (policyCodec.records events))
    (h : derivePolicy chan events = .ok derived) : readPolicyLog chan dir = .ok events := by
  refine readPolicyLog_ok.2 ⟨?_, derived, h⟩
  rw [hlog]
  exact Ndjson.parse_records policyCodec events

/-! ## One operation after the other -/

omit [Primitives] in
/-- The directory an operation opens is the channel's. -/
theorem of_openLog {opened : Dir × Bytes} (hdir : d'.channels[chan.fullName]? = some dir)
    (h : openLog chan d' = .ok opened) : opened.1 = dir :=
  Option.some.inj ((openLog_ok.1 h).1.symm.trans hdir)

/-- An action appends its events, signed and derived. -/
theorem changes_appendPolicyAction (hdir : d'.channels[chan.fullName]? = some dir)
    (signer : KeypairFile) (now now' : Int64) (action : PolicyAction) :
    Changes chan op d dir d' (appendPolicyAction chan signer now now' action) := by
  refine .query hdir fun ⟨dir₁, log⟩ hopen => ?_
  obtain rfl := of_openLog hdir hopen
  refine .except hdir fun current hcurrent => ?_
  have append : ∀ cached, (current = [] → readPolicyCache dir₁ = .ok cached) →
      Changes chan op d dir₁ d' (do
        let added ← (newPolicyEvents chan signer now now' action current cached : Except Error _)
        let policy ← (derivePolicy chan (current ++ added) : Except Error _)
        modifyDir chan.fullName (appendPolicyRecords added policy)
        pure policy) := fun cached hcached =>
    .except hdir fun added hadded => .except hdir fun policy hpolicy =>
      .write hdir (.policyAction hcurrent hcached hadded hpolicy)
  refine .ite (fun hempty => .except hdir fun cached hcached => append cached fun _ => hcached)
    fun hne => .except hdir fun cached _ => append cached fun hnil => ?_
  exact absurd (List.isEmpty_iff.2 hnil) hne

/-- A remote policy history is appended as far as it goes further. -/
theorem changes_appendRemotePolicyHistory (hdir : d.channels[chan.fullName]? = some dir)
    (remote : List PolicyEvent) :
    Changes chan (.appendRemotePolicyHistory remote) d dir d
      (appendRemotePolicyHistory chan remote) := by
  refine .query hdir fun ⟨dir₁, log⟩ hopen => ?_
  obtain rfl := of_openLog hdir hopen
  exact .except hdir fun current hcurrent => .except hdir fun policy hpolicy =>
    .bailIf hdir fun hpre => .write hdir
      (.policyRemote rfl ⟨_, hopen⟩ hcurrent hpolicy (by simpa using hpre))

/-- Taking in a remote history that extends the one there is. -/
theorem exec_appendRemotePolicyHistory {log : Bytes} {remote current : List PolicyEvent}
    {policy : ChannelPolicy} (hopen : openLog chan d = .ok (dir, log))
    (hcurrent : readPolicyLog chan dir = .ok current)
    (hpolicy : derivePolicy chan remote = .ok policy)
    (hpre : idPrefix PolicyEvent.id current remote = true) :
    (appendRemotePolicyHistory chan remote).exec d =
      (.ok policy, d.put chan.fullName
        (appendPolicyRecords (remote.drop current.length) policy dir)) := by
  rw [appendRemotePolicyHistory, Op.exec_query_bind, hopen]
  simp only
  rw [Op.exec_except_bind, hcurrent]
  simp only
  rw [Op.exec_except_bind, hpolicy]
  simp only
  rw [Op.exec_bailIf_bind, if_neg (by simp [hpre]),
    Op.exec_bind_of_ok (exec_modifyDir (openLog_ok.1 hopen).1), Op.exec_pure]

/-- Rebuilding writes the policy file alone. -/
theorem changes_rebuildPolicyCache (hdir : d.channels[chan.fullName]? = some dir) :
    Changes chan .rebuildPolicyCache d dir d (rebuildPolicyCache chan) := by
  refine .query hdir fun dir₁ hopen => ?_
  obtain rfl : dir = dir₁ := Option.some.inj (hdir.symm.trans (openDir_ok.1 hopen))
  exact .except hdir fun current hcurrent => .except hdir fun policy hpolicy =>
    .write hdir (.policyRebuilt rfl hcurrent hpolicy)

/-- Saving the current history first changes nothing here. -/
theorem changes_resolvePolicyConflict (hdir : d.channels[chan.fullName]? = some dir)
    (head : String) :
    Changes chan (.resolvePolicyConflict head) d dir d (resolvePolicyConflict chan head) := by
  refine .except hdir fun _ _ => .query hdir fun events hevents => .bailIf hdir fun hhead =>
    .except hdir fun policy hpolicy => .query hdir fun ⟨dir₁, log⟩ hopen => ?_
  obtain rfl := of_openLog hdir hopen
  refine .except hdir fun current _ => ?_
  have replace : ∀ d' dir', d'.channels[chan.fullName]? = some dir' →
      dir'.histories = dir₁.histories →
      Changes chan (.resolvePolicyConflict head) d dir' d' (do
        modifyDir chan.fullName fun dir =>
          { dir with policyLog := some (policyCodec.records events), policyJson := .value policy }
        pure policy) := fun d' dir' hdir' _ =>
    .write hdir' (.policyResolved rfl ⟨_, hopen⟩ hevents (not_not.1 hhead) hpolicy)
  exact .ite (fun _ => .after hdir (spares_savePolicyConflict _) fun _ => replace)
    fun _ => replace d dir₁ hdir rfl

/-- A moderation appends its event, signed and derived. -/
theorem changes_appendModerationAction (hdir : d'.channels[chan.fullName]? = some dir)
    (signer : KeypairFile) (now : Int64) (action : ModerationAction) :
    Changes chan op d dir d' (appendModerationAction chan signer now action) := by
  refine .query hdir fun ⟨dir₁, log⟩ hopen => ?_
  obtain rfl := of_openLog hdir hopen
  refine .query hdir fun current hcurrent => .query hdir fun P hP => .except hdir fun event _ =>
    .query hdir fun state hstate => ?_
  rw [readPolicyHistory_of_getElem? hdir] at hP
  obtain ⟨P', hP', hstate⟩ := (deriveModeration_ok hdir).1 hstate
  cases hP.symm.trans hP'
  exact .write hdir (.moderationAction ((readModerationLog_ok hdir hP).1 hcurrent) hstate)

/-- A remote moderation history is appended as far as it goes further. -/
theorem changes_appendRemoteModerationHistory (hdir : d.channels[chan.fullName]? = some dir)
    (remote : List ModerationEvent) :
    Changes chan (.appendRemoteModerationHistory remote) d dir d
      (appendRemoteModerationHistory chan remote) := by
  refine .query hdir fun ⟨dir₁, log⟩ hopen => ?_
  obtain rfl := of_openLog hdir hopen
  refine .query hdir fun current hcurrent => .query hdir fun state hstate =>
    .bailIf hdir fun hpre => ?_
  obtain ⟨P, hP, hstate⟩ := (deriveModeration_ok hdir).1 hstate
  exact .write hdir (.moderationRemote rfl ((readModerationLog_ok hdir hP).1 hcurrent) hstate
    (by simpa using hpre))

/-- A resolution puts the saved moderation in place. -/
theorem changes_resolveModerationConflict (hdir : d.channels[chan.fullName]? = some dir)
    (head : String) :
    Changes chan (.resolveModerationConflict head) d dir d
      (resolveModerationConflict chan head) := by
  refine .except hdir fun _ _ => .query hdir fun events hevents => .bailIf hdir fun _ =>
    .query hdir fun state hstate => .query hdir fun ⟨dir₁, log⟩ hopen => ?_
  obtain rfl := of_openLog hdir hopen
  refine .query hdir fun current _ => ?_
  obtain ⟨P, hP, hstate⟩ := (deriveModeration_ok hdir).1 hstate
  have replace : ∀ d' dir', d'.channels[chan.fullName]? = some dir' →
      dir'.histories = dir₁.histories →
      Changes chan (.resolveModerationConflict head) d dir' d' (do
        modifyDir chan.fullName fun dir =>
          { dir with
            moderationLog := some (moderationCodec.records events)
            moderationJson := some state }
        pure state) := fun d' dir' hdir' heq =>
    have hP' : readPolicyLog chan dir'.histories.dir = .ok P := heq ▸ hP
    .write hdir' (.moderationResolved rfl hP' hstate)
  exact .ite (fun _ => .after hdir (spares_saveModerationConflict _) fun _ => replace)
    fun _ => replace _ dir₁ hdir rfl

/-- Where a revocation, a transfer or a change of visibility makes a key
first, the histories are as they were. -/
theorem changes_rotateFirst (hdir : d'.channels[chan.fullName]? = some dir) (c : Prop) [Decidable c]
    (raw : Bytes) (signer : KeypairFile) (now now' : Int64) (action : PolicyAction) :
    Changes chan op d dir d' (do
      if c then
        let _ ← generateChannelKey chan.fullName raw
      appendPolicyAction chan signer now now' action) :=
  .ite (fun _ => .after hdir (spares_generateChannelKey raw) fun _ _ _ hdir₂ _ =>
      changes_appendPolicyAction hdir₂ signer now now' action)
    fun _ => changes_appendPolicyAction hdir signer now now' action

/-- **Every operation changes the histories in one of those ways**, whether
it returns or fails. -/
theorem history_change (op : StoreOp) (hdir : d.channels[chan.fullName]? = some dir) :
    ∃ files, HistoryChange chan op d dir.histories files ∧
      HasHistories chan files (op.exec chan d) := by
  change Changes chan op d dir d (op.op chan)
  cases op with
  | createChannel => exact .of_spares hdir spares_createChannel
  | restrictChannel => exact .ignore (changes_appendPolicyAction hdir ..)
  | grantRole => exact .ignore (changes_appendPolicyAction hdir ..)
  | revokeRole =>
    exact .ignore (.query hdir fun _ _ => changes_rotateFirst hdir ..)
  | transferOwnership =>
    exact .ignore (.except hdir fun _ _ => .query hdir fun _ _ => .bailIf hdir fun _ =>
      changes_rotateFirst hdir ..)
  | setChannelVisibility =>
    exact .ignore (.query hdir fun _ _ => .bailIf hdir fun _ => .bailIf hdir fun _ =>
      changes_rotateFirst hdir ..)
  | appendRemotePolicyHistory => exact .ignore (changes_appendRemotePolicyHistory hdir _)
  | rebuildPolicyCache => exact .ignore (changes_rebuildPolicyCache hdir)
  | savePolicyConflict => exact .of_spares hdir (spares_savePolicyConflict _).ignore
  | resolvePolicyConflict => exact .ignore (changes_resolvePolicyConflict hdir _)
  | tombstoneMessage =>
    exact .ignore (.after hdir (spares_readIndexed _) fun _ _ _ hdir₂ _ =>
      changes_appendModerationAction hdir₂ ..)
  | restoreMessage => exact .ignore (changes_appendModerationAction hdir ..)
  | appendRemoteModerationHistory => exact .ignore (changes_appendRemoteModerationHistory hdir _)
  | saveModerationConflict => exact .of_spares hdir (spares_saveModerationConflict _).ignore
  | resolveModerationConflict => exact .ignore (changes_resolveModerationConflict hdir _)
  | appendMessage => exact .of_spares hdir (spares_appendMessage _).ignore
  | chunkSummaries => exact .of_spares hdir (spares_readIndexed _).ignore
  | chunkIds => exact .of_spares hdir (spares_readIndexed _).ignore
  | readMessageById => exact .of_spares hdir (spares_readIndexed _).ignore
  | readChannelTail => exact .of_spares hdir (spares_readChannelTail _ _).ignore
  | generateChannelKey => exact .of_spares hdir (spares_generateChannelKey _).ignore
  | acceptKeyOffers => exact .of_spares hdir (spares_acceptKeyOffers _ _).ignore
  | signMessageForChannel => exact .of_spares hdir (spares_signMessageForChannel _ _ _ _).ignore

end Embernet
