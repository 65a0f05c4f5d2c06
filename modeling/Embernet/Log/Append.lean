import Embernet.Log.Indexing
import Embernet.Model.MessageStore
import Embernet.Model.Simulated
/-!
# Appending — one message, once

`append_message` on a channel whose log scans and whose index is current
or stale: it is refused, or it finds the id in the log and writes nothing,
or it adds one record. Over any run of appends a message is in the log
once its append has returned; it is the appended envelope itself unless an
envelope of the same id was there, which need not be by the same author.
-/

set_option autoImplicit false

namespace Embernet

open Primitives

section Appends

variable [Primitives] {chan : ChannelRef} {env : Envelope} {d d' : Datadir} {dir : Dir}
  {scanned : List ScannedEnvelope}

theorem authorizeAppend_ok {author : String} {u : Unit} :
    authorizeAppend chan author d = .ok u ↔
      ∃ policy, readChannelPolicy chan d = .ok policy ∧ policyAllowsAppend policy author = true := by
  simp only [authorizeAppend, Query.bind_ok, Query.bailIf_apply, bailIf_eq_ok, Bool.not_eq_false]

/-! ## One append -/

/-- The record an append writes, as a scan of the longer log finds it. -/
def newRecord (log : Bytes) (env : Envelope) : ScannedEnvelope :=
  ⟨env, log.length, (envelopeCodec.record env).length⟩

/-- The log and the index of a channel after a record was added. -/
def Dir.appended (dir : Dir) (scanned : List ScannedEnvelope) (env : Envelope) : Dir :=
  let log := dir.log.getD []
  { dir with
    log := some (log ++ envelopeCodec.record env)
    index := indexOf (scanned ++ [newRecord log env]) (log ++ envelopeCodec.record env).length }

/-- The same log, with its index current. -/
def Dir.indexed (dir : Dir) (scanned : List ScannedEnvelope) : Dir :=
  let log := dir.log.getD []
  { dir with log := some log, index := indexOf scanned log.length }

/-- **What an append does** to a channel whose log holds `scanned`. -/
inductive AppendOutcome (chan : ChannelRef) (env : Envelope) (d : Datadir) (dir : Dir)
    (scanned : List ScannedEnvelope) : Except Error String × Datadir → Prop
  | rejected {e : Error} : (env.channel = chan.fullName → env.verify ≠ .ok ()) →
      AppendOutcome chan env d dir scanned (.error e, d)
  | unauthorized {e : Error} : authorizeAppend chan env.sender d ≠ .ok () →
      AppendOutcome chan env d dir scanned
        (.error e, d.put chan.fullName { dir with log := some (dir.log.getD []) })
  | known : env.verify = .ok () → authorizeAppend chan env.sender d = .ok () →
      (∃ item ∈ scanned, item.envelope.id = env.id) →
      AppendOutcome chan env d dir scanned
        (.ok env.id, d.put chan.fullName (dir.indexed scanned))
  | appended : env.verify = .ok () → authorizeAppend chan env.sender d = .ok () →
      (∀ item ∈ scanned, item.envelope.id ≠ env.id) →
      AppendOutcome chan env d dir scanned
        (.ok env.id, d.put chan.fullName (dir.appended scanned env))

theorem appendMessage_exec (hdir : d.channels[chan.fullName]? = some dir)
    (hlog : LogOk (dir.log.getD []) dir.index scanned) :
    AppendOutcome chan env d dir scanned ((appendMessage chan env).exec d) := by
  set log := dir.log.getD [] with hlogdef
  set d₁ := d.put chan.fullName { dir with log := some log } with hd₁
  have hdir₁ : d₁.channels[chan.fullName]? = some { dir with log := some log } :=
    getElem?_put_self _ _ _
  have hauth : authorizeAppend chan env.sender d₁ = authorizeAppend chan env.sender d := by
    have : readChannelPolicy chan d₁ = readChannelPolicy chan d := by
      rw [readChannelPolicy_of_getElem? hdir₁, readChannelPolicy_of_getElem? hdir]
      exact readDirPolicy_congr rfl rfl
    simp only [authorizeAppend, Query.bind_apply, this, Query.bailIf_apply]
  have hensure : ensureIndex log dir.index = .ok (indexOf scanned log.length) := hlog.ensure
  rw [appendMessage, Op.exec_bailIf_bind]
  by_cases hchan : env.channel = chan.fullName
  swap
  · rw [if_pos hchan]
    exact .rejected fun h => absurd h hchan
  rw [if_neg (not_not.2 hchan), Op.exec_except_bind]
  cases hverify : env.verify with
  | error e => exact .rejected fun _ h => by cases hverify.symm.trans h
  | ok u =>
    simp only [context]
    rw [Op.exec_query_bind, openDir_ok.2 hdir]
    simp only
    rw [Op.exec_bind_of_ok (exec_modifyDir hdir), Op.exec_query_bind, hauth]
    cases hallow : authorizeAppend chan env.sender d with
    | error e => exact .unauthorized fun h => by cases hallow.symm.trans h
    | ok u =>
      simp only
      rw [Op.exec_except_bind, hensure]
      simp only
      rw [Op.exec_bind_of_ok (exec_modifyDir hdir₁), put_put]
      by_cases hknown : indexContains (indexOf scanned log.length) env.id = true
      · rw [if_pos hknown]
        exact .known hverify hallow (indexContains_indexOf.1 hknown)
      · rw [if_neg hknown, Op.exec_bind_of_ok (exec_modifyDir (getElem?_put_self _ _ _)), put_put,
          Op.exec_except_bind, indexInsert_indexOf hverify]
        simp only
        rw [Op.exec_bind_of_ok (exec_modifyDir (getElem?_put_self _ _ _)), put_put]
        have hnew : ∀ item ∈ scanned, item.envelope.id ≠ env.id := fun item hitem heq =>
          hknown (indexContains_indexOf.2 ⟨item, hitem, heq⟩)
        have happended : AppendOutcome chan env d dir scanned _ := .appended hverify hallow hnew
        rw [Dir.appended, List.length_append] at happended
        exact happended

/-- An append that is allowed returns. -/
theorem appendMessage_exec_allowed (hdir : d.channels[chan.fullName]? = some dir)
    (hlog : LogOk (dir.log.getD []) dir.index scanned) (hchan : env.channel = chan.fullName)
    (hverify : env.verify = .ok ()) (hauth : authorizeAppend chan env.sender d = .ok ()) :
    (appendMessage chan env).exec d =
      if indexContains (indexOf scanned 0) env.id then
        (.ok env.id, d.put chan.fullName (dir.indexed scanned))
      else (.ok env.id, d.put chan.fullName (dir.appended scanned env)) := by
  have houtcome : AppendOutcome chan env d dir scanned _ := appendMessage_exec hdir hlog
  revert houtcome
  generalize (appendMessage chan env).exec d = result
  intro houtcome
  cases houtcome with
  | rejected h => exact absurd hverify (h hchan)
  | unauthorized h => exact absurd hauth h
  | known _ _ hknown => rw [if_pos (indexContains_indexOf.2 hknown)]
  | appended _ _ hnew =>
    rw [if_neg fun h => ?_]
    obtain ⟨item, hitem, hid⟩ := indexContains_indexOf.1 h
    exact hnew item hitem hid

/-- **A read through the index** sees the index brought up to date, and
leaves it behind. -/
theorem readIndexed_exec_of_ensure {α : Type} {f : Bytes → Index → Except Error α} {log : Bytes}
    {db : Index} (hdir : d.channels[chan.fullName]? = some dir) (hfile : dir.log = some log)
    (hensure : ensureIndex log dir.index = .ok db) :
    (readIndexed chan f).exec d = (f log db, d.put chan.fullName { dir with index := db }) := by
  rw [readIndexed, Op.exec_query_bind, openLog_ok.2 ⟨hdir, hfile⟩]
  simp only
  rw [Op.exec_except_bind, hensure]
  simp only
  rw [Op.exec_bind_of_ok (exec_modifyDir hdir), Op.exec_except]

/-- That is the index of the scan. -/
theorem readIndexed_exec {α : Type} {f : Bytes → Index → Except Error α} {log : Bytes}
    (hdir : d.channels[chan.fullName]? = some dir) (hfile : dir.log = some log)
    (hlog : LogOk log dir.index scanned) :
    (readIndexed chan f).exec d =
      (f log (indexOf scanned log.length), d.put chan.fullName (dir.indexed scanned)) := by
  have hindexed : { dir with index := indexOf scanned log.length } = dir.indexed scanned := by
    simp [Dir.indexed, hfile]
  rw [readIndexed_exec_of_ensure hdir hfile hlog.ensure, hindexed]

/-! ## Runs of appends -/

/-- The channel's directory is there, its log holds `scanned`, and its
index is current or stale. -/
def ChannelLog (chan : ChannelRef) (d : Datadir) (scanned : List ScannedEnvelope) : Prop :=
  ∃ dir, d.channels[chan.fullName]? = some dir ∧ LogOk (dir.log.getD []) dir.index scanned

/-- The channel was made, and nothing was appended yet. -/
def EmptyChannel (chan : ChannelRef) (d : Datadir) : Prop :=
  ∃ dir, d.channels[chan.fullName]? = some dir ∧ dir.log.getD [] = [] ∧ dir.index.logLen = none

/-- The two nodes have the same log and the same index of a channel. -/
def SameLog (chan : ChannelRef) (d d' : Datadir) : Prop :=
  (d'.channels[chan.fullName]?.map fun dir => (dir.log, dir.index)) =
    d.channels[chan.fullName]?.map fun dir => (dir.log, dir.index)

/-- One step of a node, as a channel's log sees it: an append, which may
fail, or anything that leaves the log and its index alone. -/
inductive AppendStep (chan : ChannelRef) : Datadir → Option Envelope → Datadir → Prop
  | append (d : Datadir) (env : Envelope) :
      AppendStep chan d (some env) ((appendMessage chan env).exec d).2
  | other {d d' : Datadir} : SameLog chan d d' → AppendStep chan d none d'

theorem EmptyChannel.channelLog (h : EmptyChannel chan d) : ChannelLog chan d [] := by
  obtain ⟨dir, hdir, hlog, hindex⟩ := h
  refine ⟨dir, hdir, ?_⟩
  rw [hlog]
  exact ⟨rfl, ensureIndex_of_stale rfl (by simp [hindex]), .nil⟩

theorem ChannelLog.of_sameLog (h : ChannelLog chan d scanned) (hsame : SameLog chan d d') :
    ChannelLog chan d' scanned := by
  obtain ⟨dir, hdir, hlog⟩ := h
  rw [SameLog, hdir, Option.map_some, Option.map_eq_some_iff] at hsame
  obtain ⟨dir', hdir', hfiles⟩ := hsame
  obtain ⟨hl, hi⟩ := Prod.mk.injEq .. ▸ hfiles
  exact ⟨dir', hdir', by rwa [hl, hi]⟩

/-- What an append leaves in the log. -/
inductive Appended (env : Envelope) (scanned : List ScannedEnvelope) :
    Except Error String → List ScannedEnvelope → Prop
  | failed {e : Error} : Appended env scanned (.error e) scanned
  | known : (∃ item ∈ scanned, item.envelope.id = env.id) → Appended env scanned (.ok env.id) scanned
  | new {offset length : ℕ} : (∀ item ∈ scanned, item.envelope.id ≠ env.id) →
      Appended env scanned (.ok env.id) (scanned ++ [⟨env, offset, length⟩])

/-- **An append keeps the log in order**, and adds at most the message. -/
theorem ChannelLog.append (h : ChannelLog chan d scanned) (env : Envelope) :
    ∃ scanned', ChannelLog chan ((appendMessage chan env).exec d).2 scanned' ∧
      Appended env scanned ((appendMessage chan env).exec d).1 scanned' := by
  obtain ⟨dir, hdir, hlog⟩ := h
  have houtcome : AppendOutcome chan env d dir scanned _ := appendMessage_exec hdir hlog
  revert houtcome
  generalize (appendMessage chan env).exec d = result
  intro houtcome
  cases houtcome with
  | rejected _ => exact ⟨scanned, ⟨dir, hdir, hlog⟩, .failed⟩
  | unauthorized _ => exact ⟨scanned, ⟨_, getElem?_put_self _ _ _, hlog⟩, .failed⟩
  | known _ _ hknown => exact ⟨scanned, ⟨_, getElem?_put_self _ _ _, hlog.ensured⟩, .known hknown⟩
  | appended hverify _ hnew =>
    exact ⟨_, ⟨_, getElem?_put_self _ _ _, hlog.append hverify hnew⟩, .new hnew⟩

/-- **Every reachable log scans**, holds no id twice, and is indexed as a
rebuild would index it. -/
theorem exists_channelLog_of_run {d₀ : Datadir} {envs : List (Option Envelope)}
    (hrun : Run (AppendStep chan) d₀ envs d) (h₀ : EmptyChannel chan d₀) :
    ∃ scanned, ChannelLog chan d scanned := by
  refine hrun.invariant (I := fun d => ∃ scanned, ChannelLog chan d scanned) ?_
    ⟨[], h₀.channelLog⟩
  rintro _ _ _ ⟨scanned, h⟩ hstep
  cases hstep with
  | append env =>
    obtain ⟨scanned', h', -⟩ := h.append env
    exact ⟨scanned', h'⟩
  | other hsame => exact ⟨scanned, h.of_sameLog hsame⟩

/-- **A message is in the log once its append returned.** On a channel
reached by appends, an append that returns `id` returns the id of its
envelope, and the log afterwards holds an envelope of that id. One by the
same author is there exactly if no envelope of that id by another author
was there before; where one of that id was there, nothing is written, and
where none was, the envelope itself is added. -/
theorem append_message_by_id {d₀ : Datadir} {envs : List (Option Envelope)} {id : String}
    (hrun : Run (AppendStep chan) d₀ envs d) (h₀ : EmptyChannel chan d₀)
    (happend : (appendMessage chan env).exec d = (.ok id, d')) :
    ∃ before after, ChannelLog chan d before ∧ ChannelLog chan d' after ∧ id = env.id ∧
      (∃ item ∈ after, item.envelope.id = id) ∧
      ((∃ item ∈ after, item.envelope.id = id ∧ item.envelope.sender = env.sender) ↔
        ∀ item ∈ before, item.envelope.id = id → item.envelope.sender = env.sender) ∧
      ((∃ item ∈ before, item.envelope.id = id) → after = before) ∧
      ((∀ item ∈ before, item.envelope.id ≠ id) →
        after.map (·.envelope) = before.map (·.envelope) ++ [env]) := by
  obtain ⟨before, hbefore⟩ := exists_channelLog_of_run hrun h₀
  obtain ⟨after, hafter, hadded⟩ := hbefore.append env
  rw [happend] at hafter hadded
  refine ⟨before, after, hbefore, hafter, ?_⟩
  cases hadded with
  | known hknown =>
    refine ⟨rfl, hknown, ⟨?_, fun hall => ?_⟩, fun _ => rfl, fun hnone => ?_⟩
    · rintro ⟨item, hitem, hid, hsender⟩ other hother hotherId
      -- ids are distinct, so the record with this id is the only one
      obtain ⟨dir, -, hlog⟩ := hbefore
      have := List.inj_on_of_nodup_map hlog.nodup hother hitem (hotherId.trans hid.symm)
      rw [this, hsender]
    · obtain ⟨item, hitem, hid⟩ := hknown
      exact ⟨item, hitem, hid, hall item hitem hid⟩
    · obtain ⟨item, hitem, hid⟩ := hknown
      exact absurd hid (hnone item hitem)
  | new hnew =>
    refine ⟨rfl, ⟨_, List.mem_append_right _ (List.mem_singleton_self _), rfl⟩,
      ⟨fun _ item hitem hid => absurd hid (hnew item hitem), fun _ =>
        ⟨_, List.mem_append_right _ (List.mem_singleton_self _), rfl, rfl⟩⟩, ?_, fun _ => by simp⟩
    rintro ⟨item, hitem, hid⟩
    exact absurd hid (hnew item hitem)

end Appends

/-! ## Two authors of one message -/

section TwoAuthors

open Simulated

attribute [local instance] simulated

/-- A message anyone may write. -/
def hello : Message where
  ts := 0
  type := .post
  title := none
  tags := []
  refs := []
  body := .text "hello"

/-- The greeting, a second later. -/
def reminder : Message := { hello with ts := 1 }

theorem id_reminder_ne : (envelope general 2 reminder).id ≠ (envelope general 1 hello).id := by
  change hexEncode _ ≠ hexEncode _
  rw [ne_eq, hexEncode_inj]
  decide +kernel

/-- The directory of a channel that was just made. -/
def newDir : Dir := { log := some [] }

/-- A node that has made the channel. -/
def newNode : Datadir := ({} : Datadir).put general.fullName newDir

theorem emptyChannel_newNode : EmptyChannel general newNode :=
  ⟨newDir, getElem?_put_self _ _ _, rfl, rfl⟩

/-- The channel is open: anyone may append. -/
theorem authorizeAppend_put (d : Datadir) {dir : Dir} (hlog : dir.policyLog = none)
    (hjson : dir.policyJson = .absent) (author : String) :
    authorizeAppend general author (d.put general.fullName dir) = .ok () := by
  refine authorizeAppend_ok.2 ⟨.default, ?_, rfl⟩
  rw [readChannelPolicy_of_getElem? (getElem?_put_self _ _ _)]
  simp [readDirPolicy, readPolicyCache, hlog, hjson]

/-- The channel after the first author's append. -/
noncomputable def greetedDir : Dir := newDir.appended [] (envelope general 1 hello)

/-- The node with that channel. -/
noncomputable def greetedNode : Datadir := newNode.put general.fullName greetedDir

theorem first_append :
    (appendMessage general (envelope general 1 hello)).exec newNode =
      (.ok (envelope general 1 hello).id, greetedNode) := by
  have hdir : newNode.channels[general.fullName]? = some newDir := getElem?_put_self _ _ _
  have hexec := appendMessage_exec_allowed hdir LogOk.empty rfl
    (verify_envelope general 1 hello)
    (authorizeAppend_put {} rfl rfl (envelope general 1 hello).sender)
  rw [if_neg (by rw [indexContains_indexOf]; simp)] at hexec
  exact hexec

theorem logOk_greetedDir :
    LogOk (greetedDir.log.getD []) greetedDir.index [newRecord [] (envelope general 1 hello)] :=
  LogOk.empty.append (verify_envelope general 1 hello) (by simp)

theorem run_greetedNode :
    Run (AppendStep general) newNode [some (envelope general 1 hello)] greetedNode := by
  have hstep : AppendStep general _ _ _ := .append newNode (envelope general 1 hello)
  rw [first_append] at hstep
  exact Run.snoc (.nil _) hstep

theorem authorizeAppend_greetedNode (author : String) :
    authorizeAppend general author greetedNode = .ok () :=
  authorizeAppend_put newNode rfl rfl author

/-- The second author's append finds the id. -/
theorem second_append :
    (appendMessage general (envelope general 2 hello)).exec greetedNode =
      (.ok (envelope general 2 hello).id,
        greetedNode.put general.fullName
          (greetedDir.indexed [newRecord [] (envelope general 1 hello)])) := by
  have hknown : indexContains (indexOf [newRecord [] (envelope general 1 hello)] 0)
      (envelope general 2 hello).id = true :=
    indexContains_indexOf.2 ⟨_, List.mem_singleton_self _, rfl⟩
  have hexec := appendMessage_exec_allowed (d := greetedNode) (getElem?_put_self _ _ _)
    logOk_greetedDir rfl (verify_envelope general 2 hello) (authorizeAppend_greetedNode _)
  rwa [if_pos hknown] at hexec

/-- **The second author is dropped**: both appends return the id, and the
log afterwards holds no envelope by the second. -/
theorem second_author_dropped :
    ∃ d d' : Datadir, Run (AppendStep general) newNode [some (envelope general 1 hello)] d ∧
      (envelope general 2 hello).verify = .ok () ∧
      authorizeAppend general (envelope general 2 hello).sender d = .ok () ∧
      (appendMessage general (envelope general 2 hello)).exec d =
        (.ok (envelope general 2 hello).id, d') ∧
      ∃ after, ChannelLog general d' after ∧
        ∀ item ∈ after, item.envelope.sender ≠ (envelope general 2 hello).sender := by
  refine ⟨greetedNode, _, run_greetedNode, verify_envelope general 2 hello,
    authorizeAppend_greetedNode _, second_append, _,
    ⟨_, getElem?_put_self _ _ _, logOk_greetedDir.ensured⟩, ?_⟩
  intro item hitem
  rw [List.mem_singleton.1 hitem]
  change hexEncode _ ≠ hexEncode _
  rw [ne_eq, hexEncode_inj]
  decide

/-- What the law says there: the id was there, so the log stays as it
was. -/
theorem append_message_by_id_second_author :
    ∃ before after d', ChannelLog general greetedNode before ∧ ChannelLog general d' after ∧
      ((∃ item ∈ before, item.envelope.id = (envelope general 2 hello).id) → after = before) := by
  obtain ⟨before, after, hbefore, hafter, -, -, -, hsame, -⟩ :=
    append_message_by_id run_greetedNode emptyChannel_newNode second_append
  exact ⟨before, after, _, hbefore, hafter, hsame⟩

end TwoAuthors

end Embernet
