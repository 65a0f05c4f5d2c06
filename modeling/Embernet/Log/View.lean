import Embernet.Log.Decryption
import Embernet.Moderation.Extension
import Mathlib.Data.List.DropRight
/-!
# The view — a tail under moderation

The view of a channel is computed from three things kept apart: the index,
which knows its records by their ids and their places; the moderation
history, folded into a table of what is hidden; and the log, of which the
records are read back one by one. What comes out is plain: the last records
of the log that are not tombstoned, in their order. An id is tombstoned
where the last event that names it is a tombstone, and when the record was
appended has no part in it.
-/

set_option autoImplicit false

namespace Embernet

open Primitives

/-! ## What is tombstoned -/

/-- The id an action is about. -/
def ModerationAction.target : ModerationAction → String
  | .tombstone target _ | .restore target => target

/-- The action hides its target. -/
def ModerationAction.isTombstone : ModerationAction → Bool
  | .tombstone _ _ => true
  | .restore _ => false

/-- The last event of a history that names an id. -/
def lastNaming (M : List ModerationEvent) (id : String) : Option ModerationEvent :=
  M.reverse.find? (·.action.target == id)

/-- An id is tombstoned exactly if that event is a tombstone. -/
def tombstonedBy (M : List ModerationEvent) (id : String) : Bool :=
  (lastNaming M id).any (·.action.isTombstone)

theorem tombstonedBy_concat (M : List ModerationEvent) (e : ModerationEvent) (id : String) :
    tombstonedBy (M ++ [e]) id =
      if e.action.target = id then e.action.isTombstone else tombstonedBy M id := by
  rw [tombstonedBy, lastNaming, List.reverse_append, List.reverse_singleton, List.singleton_append,
    List.find?_cons]
  by_cases h : e.action.target = id
  · simp [h]
  · rw [if_neg h, beq_false_of_ne h]
    rfl

/-- An action hides its target or shows it, and touches nothing else. -/
theorem contains_applyModerationAction {state state' : ModerationState}
    {action : ModerationAction} (h : applyModerationAction state action = .ok state')
    (id : String) : state'.tombstoned.contains id =
      if action.target = id then action.isTombstone else state.tombstoned.contains id := by
  cases action with
  | tombstone target reason =>
    obtain ⟨_, -, hstate⟩ := bind_eq_ok.1 h
    obtain rfl := (pure_eq_ok.1 hstate).symm
    by_cases hid : target = id
    · simp [ModerationAction.target, ModerationAction.isTombstone, hid]
    · simp [ModerationAction.target, hid, Std.ExtTreeMap.contains_insert]
  | restore target =>
    obtain ⟨_, -, hstate⟩ := bind_eq_ok.1 h
    obtain rfl := (pure_eq_ok.1 hstate).symm
    by_cases hid : target = id
    · simp [ModerationAction.target, ModerationAction.isTombstone, hid]
    · simp [ModerationAction.target, hid, Std.ExtTreeMap.contains_erase]

section View

variable [Primitives] {chan : ChannelRef} {d d' d₀ : Datadir} {records : List Envelope}
  {P : List PolicyEvent} {M : List ModerationEvent} {state : ModerationState} {n : ℕ}

/-- **The table is the last word on each id.** -/
theorem contains_deriveModerationUnder (h : deriveModerationUnder chan P M = .ok state)
    (id : String) : state.tombstoned.contains id = tombstonedBy M id := by
  obtain ⟨s, hs, rfl⟩ := deriveModerationUnder_ok.1 h
  clear h
  -- from the last event back
  induction M using List.reverseRecOn generalizing s with
  | nil =>
    cases hs
    simp [ModerationCursor.start, tombstonedBy, lastNaming]
  | append_singleton M e ih =>
    obtain ⟨t, ht, hstep⟩ := Replay.replay_concat_ok.1 hs
    have happly := (deriveModerationStep_ok.1 hstep).2.2.2.2.2.1
    rw [contains_applyModerationAction happly, tombstonedBy_concat, ih t ht]

/-! ## The stores it is read from -/

/-- The log file of the channel is there. -/
def LogThere (chan : ChannelRef) : Datadir → Prop :=
  HasDir chan.fullName fun dir => dir.log.isSome = true

omit [Primitives] in
theorem LogThere.openLog (h : LogThere chan d) : ∃ opened, openLog chan d = .ok opened := by
  obtain ⟨dir, hdir, hlog⟩ := h
  obtain ⟨log, hlog⟩ := Option.isSome_iff_exists.1 hlog
  exact ⟨(dir, log), openLog_ok.2 ⟨hdir, hlog⟩⟩

/-- A log that is there stays there, whatever runs. -/
theorem LogThere.step (h : LogThere chan d) (hrecords : Orderly chan d records) {op : StoreOp}
    (hstep : StoreStep chan d op d') : LogThere chan d' := by
  subst hstep
  by_cases hop : ∃ env, op = .appendMessage env
  · obtain ⟨env, rfl⟩ := hop
    obtain ⟨dir, hdir, hrecords⟩ := hrecords.dir
    obtain ⟨scanned, hok, -⟩ := hrecords.indexed
    have houtcome : AppendOutcome chan env d dir scanned _ := appendMessage_exec hdir hok
    rw [show StoreOp.exec chan (.appendMessage env) d = ((appendMessage chan env).exec d).2 from
      exec_ignore _ _]
    revert houtcome
    generalize (appendMessage chan env).exec d = result
    intro houtcome
    -- an append leaves a log file wherever it writes
    cases houtcome with
    | rejected _ => exact h
    | unauthorized _ | known _ _ _ | appended _ _ _ =>
      exact ⟨_, getElem?_put_self _ _ _, rfl⟩
  · refine keeps_of_log_index (fun dir dir' hlog _ h => hlog ▸ h) (fun _ h => h.map fun _ _ => rfl)
      (fun dir log db _ _ h => ?_) (fun env henv => hop ⟨env, henv⟩) d h
    exact ⟨_, rfl, (There.of_some.1 h : dir.log.isSome = true)⟩

/-- A channel with another moderation file. -/
def Datadir.withModerationLog (d : Datadir) (channel : String) (file : Option Bytes) : Datadir :=
  match d.channels[channel]? with
  | none => d
  | some dir => d.put channel { dir with moderationLog := file }

/-- A channel that was made and then worked on, in any way, and whose
moderation file may then be any other: what it reads as is a history that
the policy admits. -/
structure ModeratedStore (chan : ChannelRef) (d : Datadir) (M : List ModerationEvent) : Prop where
  reached : ∃ d₀ ops d₁ file, EmptyChannel chan d₀ ∧ LogThere chan d₀ ∧
    Run (StoreStep chan) d₀ ops d₁ ∧ d = d₁.withModerationLog chan.fullName file
  history : readModerationHistory chan d = .ok M
  valid : ∃ state, deriveModeration chan M d = .ok state

/-- Its log is there, and holds records in order. -/
theorem ModeratedStore.orderly (h : ModeratedStore chan d M) :
    LogThere chan d ∧ ∃ records, Orderly chan d records := by
  obtain ⟨d₀, ops, d₁, file, hempty, hlog, hrun, rfl⟩ := h.reached
  have hkept : LogThere chan d₁ ∧ ∃ records, Orderly chan d₁ records := by
    refine hrun.invariant (I := fun d => LogThere chan d ∧ ∃ records, Orderly chan d records) ?_
      ⟨hlog, [], hempty.orderly⟩
    rintro _ op _ ⟨hlog, records, hrecords⟩ hstep
    refine ⟨hlog.step hrecords hstep, ?_⟩
    rcases hrecords.step hstep with hsame | ⟨env, -, hmore, -⟩
    · exact ⟨records, hsame⟩
    · exact ⟨_, hmore⟩
  obtain ⟨⟨dir, hdir, hsome⟩, records, hrecords⟩ := hkept
  obtain ⟨dir', hdir', hindexed⟩ := hrecords.dir
  obtain rfl : dir = dir' := Option.some.inj (hdir.symm.trans hdir')
  rw [Datadir.withModerationLog, hdir]
  exact ⟨⟨_, getElem?_put_self _ _ _, hsome⟩, records,
    ⟨_, getElem?_put_self _ _ _, hindexed.log, hindexed.indexed⟩, hrecords.channel⟩

/-! ## What it shows -/

omit [Primitives] in
/-- The last records of those that are not hidden. -/
theorem lastVisible_eq (hidden : String → Bool) (n : ℕ) (records : List Envelope) :
    lastVisible hidden n records = (records.filter fun env => !hidden env.id).rtake n := by
  rw [lastVisible, List.rtake_eq_reverse_take_reverse]

/-- The view and the whole tail of such a store. -/
theorem ModeratedStore.tails (h : ModeratedStore chan d M) (hrecords : Orderly chan d records)
    (n : ℕ) :
    (∃ d', (readChannelTail chan n false).exec d =
      (.ok ((records.filter fun env => !tombstonedBy M env.id).rtake n), d')) ∧
    ∃ d', (readChannelTail chan n true).exec d = (.ok (records.rtake n), d') := by
  by_cases hn : n = 0
  · subst hn
    exact ⟨⟨d, by simp [readChannelTail, List.rtake]⟩, ⟨d, by simp [readChannelTail, List.rtake]⟩⟩
  obtain ⟨⟨dir, log⟩, hopen⟩ := h.orderly.1.openLog
  obtain ⟨state, hderive⟩ := h.valid
  have hstate : moderationState chan d = .ok state := by
    rw [moderationState, Query.bind_apply, h.history]
    exact hderive
  have hhidden : (fun id => state.tombstoned.contains id) = tombstonedBy M := by
    obtain ⟨P, -, hunder⟩ := (deriveModeration_ok (openLog_ok.1 hopen).1).1 hderive
    exact funext fun id => contains_deriveModerationUnder hunder id
  constructor
  · obtain ⟨scanned, htail⟩ := hrecords.tail hopen (tombstonedBy M) n
    rw [exec_readChannelTail hstate hn, hhidden, htail, lastVisible_eq]
    exact ⟨_, rfl⟩
  · obtain ⟨scanned, htail⟩ := hrecords.tail hopen (fun _ => false) n
    rw [exec_readChannelTail_all hn, htail, lastVisible_eq]
    have hall : (records.filter fun _ => !false) = records :=
      List.filter_eq_self.2 fun _ _ => rfl
    rw [hall]
    exact ⟨_, rfl⟩

/-- The ids that some view shows. -/
def visibleIds (chan : ChannelRef) (d : Datadir) : Set String :=
  {id | ∃ n envs d', (readChannelTail chan n false).exec d = (.ok envs, d') ∧
    ∃ env ∈ envs, env.id = id}

/-- They are the ids of the log that are not tombstoned. -/
theorem ModeratedStore.visibleIds_eq (h : ModeratedStore chan d M)
    (hrecords : Orderly chan d records) :
    visibleIds chan d = {id | id ∈ records.map Envelope.id ∧ tombstonedBy M id = false} := by
  ext id
  constructor
  · rintro ⟨n, envs, d', hexec, env, henv, rfl⟩
    obtain ⟨d'', htail⟩ := (h.tails hrecords n).1
    cases hexec.symm.trans htail
    have hmem := List.mem_filter.1 (List.mem_of_mem_drop henv)
    exact ⟨List.mem_map_of_mem hmem.1, by simpa using hmem.2⟩
  · rintro ⟨hid, hvisible⟩
    obtain ⟨env, henv, rfl⟩ := List.mem_map.1 hid
    -- a view of as many records as there are shows all
    obtain ⟨d', htail⟩ := (h.tails hrecords records.length).1
    refine ⟨_, _, _, htail, env, ?_, rfl⟩
    rw [List.rtake, Nat.sub_eq_zero_of_le (List.length_filter_le _ _), List.drop_zero]
    exact List.mem_filter.2 ⟨henv, by simp [hvisible]⟩

/-- **The normal view is the moderated tail.** Whatever was done to a
channel, and whatever valid moderation history it has: a view shows, in
the order of the log, the last records of it whose id is not tombstoned,
and with the tombstoned records the last records; an id is tombstoned
exactly if the last event that names it is a tombstone. Two stores of one
moderation history whose logs have the same ids show the same ids, in
whatever order the records and the events came. -/
theorem normal_view (h : ModeratedStore chan d M) :
    ∃ records, LogHolds chan d records ∧
      (∀ n, (∃ d', (readChannelTail chan n false).exec d =
          (.ok ((records.filter fun env => !tombstonedBy M env.id).rtake n), d')) ∧
        ∃ d', (readChannelTail chan n true).exec d = (.ok (records.rtake n), d')) ∧
      ∀ d₂ records₂, ModeratedStore chan d₂ M → LogHolds chan d₂ records₂ →
        (∀ id, id ∈ records₂.map Envelope.id ↔ id ∈ records.map Envelope.id) →
        visibleIds chan d₂ = visibleIds chan d := by
  obtain ⟨-, records, hrecords⟩ := h.orderly
  refine ⟨records, hrecords.logHolds, h.tails hrecords, fun d₂ records₂ h₂ hlog₂ hids => ?_⟩
  obtain ⟨-, _, hrecords₂⟩ := h₂.orderly
  rw [hrecords₂.logHolds.unique hlog₂] at hrecords₂
  rw [h₂.visibleIds_eq hrecords₂, h.visibleIds_eq hrecords]
  ext id
  exact and_congr_left fun _ => hids id

end View

section Hidden

open Simulated

attribute [local instance] simulated

/-- A channel that its owner restricted, with the greeting in it. -/
noncomputable def restrictedDir : Dir :=
  { newDir with policyLog := some (policyCodec.records [restrictedAt 0]) }

/-- The owner's node, with that channel. -/
noncomputable def ownersNode : Datadir :=
  (nodeWith [restrictedAt 0]).put general.fullName
    (restrictedDir.appended [] (envelope general 1 hello))

theorem run_ownersNode : Run (StoreStep general) (nodeWith [restrictedAt 0])
    [.appendMessage (envelope general 1 hello)] ownersNode := by
  have hdir : (nodeWith [restrictedAt 0]).channels[general.fullName]? = some restrictedDir :=
    getElem?_put_self _ _ _
  have hlog : readPolicyLog general restrictedDir = .ok [restrictedAt 0] :=
    readPolicyLog_ok.2
      ⟨Ndjson.parse_records policyCodec _, _, derivePolicy_restrictedAt 0⟩
  have hpolicy : readChannelPolicy general (nodeWith [restrictedAt 0]) = .ok (ownedPolicy []) := by
    have hthere : restrictedDir.policyLog.isSome = true := rfl
    rw [readChannelPolicy_of_getElem? hdir, readDirPolicy, if_pos hthere]
    exact bind_eq_ok.2 ⟨_, hlog, derivePolicy_restrictedAt 0⟩
  have hexec := appendMessage_exec_allowed hdir LogOk.empty rfl
    (verify_envelope general 1 hello)
    (authorizeAppend_ok.2 ⟨_, hpolicy, by simp [policyAllowsAppend, ownedPolicy, envelope]⟩)
  rw [if_neg (by rw [indexContains_indexOf]; simp)] at hexec
  exact .snoc (.nil _) (storeStep_appendMessage hexec)

/-- The owner hides the greeting. -/
def hideGreeting : ModerationEvent :=
  moderationEvent general 1 0 none (restrictedAt 0).id (.tombstone (envelope general 1 hello).id none)

/-- The node once the record is hidden. -/
noncomputable def hidingNode : Datadir :=
  ownersNode.withModerationLog general.fullName (some (moderationCodec.records [hideGreeting]))

theorem moderatedStore_hidingNode : ModeratedStore general hidingNode [hideGreeting] := by
  set dir : Dir := { restrictedDir.appended [] (envelope general 1 hello) with
    moderationLog := some (moderationCodec.records [hideGreeting]) } with hdirdef
  have hdir : hidingNode.channels[general.fullName]? = some dir := by
    rw [hidingNode, Datadir.withModerationLog, ownersNode, getElem?_put_self]
    exact getElem?_put_self _ _ _
  have hP : readPolicyLog general dir = .ok [restrictedAt 0] :=
    readPolicyLog_ok.2 ⟨Ndjson.parse_records policyCodec _, _, derivePolicy_restrictedAt 0⟩
  obtain ⟨state, hstate⟩ : ∃ state,
      deriveModerationUnder general [restrictedAt 0] [hideGreeting] = .ok state := by
    have hcited : CitedPolicy general [restrictedAt 0] (restrictedAt 0).id 0 (ownedPolicy []) :=
      ⟨by simp [policyPosition], derivePolicy_restrictedAt 0⟩
    have hvalid : validatePublicKey (envelope general 1 hello).id = .ok () := by
      simp [validatePublicKey, envelope, bind_eq_ok, length_hash]
    obtain ⟨hidden, happly⟩ : ∃ hidden, applyModerationAction ModerationCursor.start.state
        (.tombstone (envelope general 1 hello).id none) = .ok hidden := by
      refine ⟨⟨Std.ExtTreeMap.insert ∅ (envelope general 1 hello).id none⟩, ?_⟩
      rw [applyModerationAction, hvalid]
      rfl
    exact ⟨_, deriveModerationUnder_ok.2 ⟨_, Replay.replay_cons_ok.2
      ⟨_, deriveModerationStep_moderationEvent (s := .start) hcited
        (by simp [policyAllowsModeration, ownedPolicy]) happly, rfl⟩, rfl⟩⟩
  refine ⟨⟨nodeWith [restrictedAt 0], _, _, _, ?_, ?_, run_ownersNode, rfl⟩, ?_, state, ?_⟩
  · exact ⟨restrictedDir, getElem?_put_self _ _ _, rfl, rfl⟩
  · exact ⟨restrictedDir, getElem?_put_self _ _ _, rfl⟩
  · rw [readModerationHistory, Query.bind_ok]
    have hparse : parseHistory readModerationEvent "moderation.ndjson" "moderation"
        (dir.histories.moderationLog.getD []) = .ok [hideGreeting] :=
      parseHistory_ok.2 (Ndjson.parse_records moderationCodec _)
    exact ⟨dir, openDir_ok.2 hdir,
      (readModerationLog_ok hdir hP).2 ⟨hP, hparse, state, hstate⟩⟩
  · exact (deriveModeration_ok hdir).2 ⟨_, hP, hstate⟩

/-- The law there: the greeting is in the tail, and not in the view. -/
theorem normal_view_hidden :
    (∃ d', (readChannelTail general 5 false).exec hidingNode = (.ok [], d')) ∧
      ∃ d', (readChannelTail general 5 true).exec hidingNode =
        (.ok [envelope general 1 hello], d') := by
  obtain ⟨records, hlog, htails, -⟩ := normal_view moderatedStore_hidingNode
  have hrecords : LogHolds general hidingNode [envelope general 1 hello] := by
    rw [hidingNode, Datadir.withModerationLog, ownersNode, getElem?_put_self]
    refine ⟨_, getElem?_put_self _ _ _, ?_⟩
    simp [restrictedDir, newDir, Dir.appended, Ndjson.Codec.records]
  rw [hlog.unique hrecords] at htails
  obtain ⟨hview, htail⟩ := htails 5
  have hhidden : tombstonedBy [hideGreeting] (envelope general 1 hello).id = true := by
    simp [tombstonedBy, lastNaming, hideGreeting, moderationEvent, ModerationAction.target,
      ModerationAction.isTombstone]
  rw [List.filter_cons, if_neg (by simp [hhidden]), List.filter_nil, List.rtake_nil] at hview
  rw [List.rtake, List.length_singleton, List.drop_zero] at htail
  exact ⟨hview, htail⟩

end Hidden

end Embernet
