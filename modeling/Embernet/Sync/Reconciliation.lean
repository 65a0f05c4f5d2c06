import Embernet.Lib.Solo
import Embernet.Store.Retention
import Embernet.Sync.Membership
/-!
# Reconciliation — what two nodes do with their histories

Two nodes that meet compare their histories by the ids. Where one begins
the other, both end with the longer one: each keeps its own events and
takes in what the longer has beyond them. Where neither does, each saves
the other's history and ends the session. The same is done for the
moderation histories, under the policy history that both then have.
-/

set_option autoImplicit false

namespace Embernet

open Primitives Proc

/-! ## Histories that begin alike -/

section Related

variable {α : Type} {id : α → String} {xs ys : List α}

/-- The longer of two histories. -/
def longer (xs ys : List α) : List α := if xs.length < ys.length then ys else xs

/-- A history with what another has beyond it. -/
def extendedBy (xs ys : List α) : List α := xs ++ ys.drop xs.length

/-- One of two histories begins the other, by the ids. -/
def Related (id : α → String) (xs ys : List α) : Prop :=
  idPrefix id xs ys = true ∨ idPrefix id ys xs = true

/-- Histories of the same ids begin each other. -/
theorem idPrefix_of_map_eq (h : xs.map id = ys.map id) : idPrefix id xs ys = true := by
  have hlength : xs.length = ys.length := by simpa using congrArg List.length h
  rw [idPrefix_iff, hlength, List.take_length, h]

/-- By the ids, an extended history is the longer one. -/
theorem map_extendedBy (h : idPrefix id xs ys = true) : (extendedBy xs ys).map id = ys.map id := by
  rw [extendedBy, List.map_append, idPrefix_iff.1 h, ← List.map_append, List.take_append_drop]

/-- Nothing is taken of one that is not longer. -/
theorem extendedBy_of_length_le (h : ys.length ≤ xs.length) : extendedBy xs ys = xs := by
  rw [extendedBy, List.drop_eq_nil_of_le h, List.append_nil]

/-- What two histories have, the longer one has. -/
theorem longer_of {p : List α → Prop} (hx : p xs) (hy : p ys) : p (longer xs ys) := by
  rw [longer]
  split
  · exact hy
  · exact hx

/-- No event comes from anywhere else. -/
theorem mem_extendedBy {a : α} (h : a ∈ extendedBy xs ys) : a ∈ xs ∨ a ∈ ys := by
  rcases List.mem_append.1 h with h | h
  · exact .inl h
  · exact .inr (List.mem_of_mem_drop h)

/-- What one takes in of the other's longer one is what the longer one has
beyond it. -/
theorem extendedBy_extendedBy :
    extendedBy ys (extendedBy xs (longer xs ys)) = extendedBy ys (longer xs ys) := by
  rw [longer]
  split
  · rename_i hlt
    have hlength : (extendedBy xs ys).length = ys.length := by
      simp only [extendedBy, List.length_append, List.length_drop]
      omega
    rw [extendedBy_of_length_le hlength.le, extendedBy_of_length_le le_rfl]
  · rw [extendedBy_of_length_le (le_refl xs.length)]

/-- What begins a history begins another of its ids. -/
theorem idPrefix_of_ids {zs : List α} (h : idPrefix id xs ys = true)
    (hids : zs.map id = ys.map id) : idPrefix id xs zs = true := by
  rw [idPrefix_iff, List.map_take] at h ⊢
  rw [hids]
  exact h

/-- Both begin the longer one. -/
theorem Related.idPrefix_longer (h : Related id xs ys) :
    idPrefix id xs (longer xs ys) = true ∧ idPrefix id ys (longer xs ys) = true := by
  have hself (zs : List α) : idPrefix id zs zs = true := idPrefix_of_map_eq rfl
  have hsame (hpre : idPrefix id xs ys = true) (hle : ys.length ≤ xs.length) :
      xs.map id = ys.map id := by
    rw [idPrefix_iff.1 hpre, List.take_of_length_le hle]
  have hle {us vs : List α} (h : idPrefix id us vs = true) : us.length ≤ vs.length := by
    have hlength := congrArg List.length (idPrefix_iff.1 h)
    simp only [List.length_map, List.length_take] at hlength
    omega
  rw [longer]
  split
  · rename_i hlt
    rcases h with h | h
    · exact ⟨h, hself ys⟩
    · have := hle h
      omega
  · rename_i hlt
    refine ⟨hself xs, ?_⟩
    rcases h with h | h
    · exact idPrefix_of_map_eq (hsame h (by omega)).symm
    · exact h

/-- The two histories fork: neither begins the other. -/
theorem not_related (h : ¬ Related id xs ys) :
    xs ≠ [] ∧ ys ≠ [] ∧ (!idPrefix id xs ys && !idPrefix id ys xs) = true := by
  rw [Related, not_or, Bool.not_eq_true, Bool.not_eq_true] at h
  refine ⟨?_, ?_, by rw [h.1, h.2]; rfl⟩
  · rintro rfl
    simp [idPrefix] at h
  · rintro rfl
    simp [idPrefix] at h

/-- The test that both sides of a session make. -/
theorem related_iff : Related id xs ys ↔
    (!idPrefix id xs ys && !idPrefix id ys xs) = false := by
  rw [Related]
  cases idPrefix id xs ys <;> cases idPrefix id ys xs <;> simp

end Related

section Reconciliation

variable [Primitives] {chan : ChannelRef} {d d' : Datadir} {dir dir' : Dir}
  {P Q : List PolicyEvent} {M N : List ModerationEvent} {policy : ChannelPolicy} {U : Set Bytes}

/-! ## What a node holds -/

/-- A node has the channel, with a log, and these histories in its
files. -/
structure Holds (chan : ChannelRef) (dir : Dir) (P : List PolicyEvent) (M : List ModerationEvent)
    (d : Datadir) : Prop where
  there : d.channels[chan.fullName]? = some dir
  log : ∃ log, dir.log = some log
  readable : Readable chan dir.histories P M

omit [Primitives] in
/-- The moderation history, the log and the keys of a directory are
another's. -/
structure Dir.SameBeside (dir dir' : Dir) : Prop where
  moderationLog : dir'.moderationLog = dir.moderationLog
  log : dir'.log = dir.log
  channelKeys : dir'.channelKeys = dir.channelKeys

omit [Primitives] in
/-- And so is the policy history. -/
structure Dir.Same (dir dir' : Dir) : Prop extends dir.SameBeside dir' where
  policyLog : dir'.policyLog = dir.policyLog

omit [Primitives] in
/-- Two calls that leave a directory as it was, one after the other. -/
theorem Dir.Same.trans {a b c : Dir} (hab : a.Same b) (hbc : b.Same c) : a.Same c :=
  ⟨⟨hbc.moderationLog.trans hab.moderationLog, hbc.log.trans hab.log,
    hbc.channelKeys.trans hab.channelKeys⟩, hbc.policyLog.trans hab.policyLog⟩

/-- The channel's directory is there on both sides, and so related. -/
def Across (R : Dir → Dir → Prop) (chan : ChannelRef) (d d' : Datadir) : Prop :=
  ∃ dir dir', d.channels[chan.fullName]? = some dir ∧ d'.channels[chan.fullName]? = some dir' ∧
    R dir dir'

/-- The two current histories, the message log and the keyring of the
channel are as they were. -/
def Unchanged : ChannelRef → Datadir → Datadir → Prop := Across Dir.Same

/-- All of them but the policy history are. -/
def UnchangedBeside : ChannelRef → Datadir → Datadir → Prop := Across Dir.SameBeside

/-- The node has saved this policy history, under its head. -/
def SavedPolicy (chan : ChannelRef) (P : List PolicyEvent) (d : Datadir) : Prop :=
  ∃ last, P.getLast? = some last ∧
    readSaved readPolicyEvent (policyConflictDir chan) last.id d = .ok P

/-- The node has saved this moderation history, under its head. -/
def SavedModeration (chan : ChannelRef) (M : List ModerationEvent) (d : Datadir) : Prop :=
  ∃ last, M.getLast? = some last ∧
    readSaved readModerationEvent (moderationConflictDir chan) last.id d = .ok M

namespace Holds

/-- The directory's policy history is the one held. -/
theorem policyLog (h : Holds chan dir P M d) : readPolicyLog chan dir = .ok P := h.readable.policy

/-- The channel's policy history is the one held. -/
theorem policyHistory (h : Holds chan dir P M d) : readPolicyHistory chan d = .ok P := by
  rw [readPolicyHistory_of_getElem? h.there]
  exact h.policyLog

/-- The directory's moderation history is the one held. -/
theorem moderationLog (h : Holds chan dir P M d) : readModerationLog chan dir d = .ok M :=
  (readModerationLog_ok h.there h.policyLog).2 h.readable.toHasModeration

/-- The channel's moderation history is the one held. -/
theorem moderationHistory (h : Holds chan dir P M d) : readModerationHistory chan d = .ok M := by
  rw [readModerationHistory, Query.bind_apply, openDir_ok.2 h.there]
  exact h.moderationLog

/-- A policy history that is held derives. -/
theorem derivable (h : Holds chan dir P M d) : ∃ policy, derivePolicy chan P = .ok policy :=
  (readPolicyLog_ok.1 h.policyLog).2

/-- The channel is there, and its log can be opened. -/
theorem openLog (h : Holds chan dir P M d) : ∃ log, openLog chan d = .ok (dir, log) := by
  obtain ⟨log, hlog⟩ := h.log
  exact ⟨log, openLog_ok.2 ⟨h.there, hlog⟩⟩

/-- Moderations are derived under the history that is held. -/
theorem deriveModeration (h : Holds chan dir P M d) (N : List ModerationEvent) :
    deriveModeration chan N d = deriveModerationUnder chan P N := by
  rw [deriveModeration_of_getElem? h.there, h.policyLog]
  rfl

/-- Files that are the same hold the same. -/
theorem same (h : Holds chan dir P M d) (hsame : dir.Same dir')
    (hthere : d'.channels[chan.fullName]? = some dir') : Holds chan dir' P M d' := by
  obtain ⟨log, hlog⟩ := h.log
  refine ⟨hthere, ⟨log, hsame.log.trans hlog⟩, ?_⟩
  obtain ⟨hP, hM, hstate, hpolicy, hmoderation⟩ := readable_iff.1 h.readable
  simp only [Dir.histories] at hP hM hpolicy hmoderation
  refine readable_iff.2 ?_
  simp only [Dir.histories, hsame.policyLog, hsame.moderationLog]
  exact ⟨hP, hM, hstate, hpolicy, hmoderation⟩

/-- **Taking in a policy history** that the node's own begins. -/
theorem appendPolicy (h : Holds chan dir P M d) (hpre : idPrefix PolicyEvent.id P Q = true)
    (hQ : derivePolicy chan Q = .ok policy)
    (hderive : derivePolicy chan (extendedBy P Q) = .ok policy) :
    ∃ dir', (appendRemotePolicyHistory chan Q).exec d =
        (.ok policy, d.put chan.fullName dir') ∧
      Holds chan dir' (extendedBy P Q) M (d.put chan.fullName dir') ∧ dir.SameBeside dir' ∧
      (Q.length ≤ P.length → dir.Same dir') ∧
      (P.length < Q.length → readChannelPolicy chan (d.put chan.fullName dir') = .ok policy) := by
  obtain ⟨log, hopen⟩ := h.openLog
  have hholds : Holds chan (appendPolicyRecords (Q.drop P.length) policy dir) (extendedBy P Q) M
      (d.put chan.fullName (appendPolicyRecords (Q.drop P.length) policy dir)) :=
    ⟨getElem?_put_self _ _ _, h.log, h.readable.policyAppended hderive policy⟩
  refine ⟨_, exec_appendRemotePolicyHistory hopen h.policyLog hQ hpre, hholds, ⟨rfl, rfl, rfl⟩,
    ?_, ?_⟩
  · intro hle
    refine ⟨⟨rfl, rfl, rfl⟩, ?_⟩
    simp only [appendPolicyRecords, List.drop_eq_nil_of_le hle, List.isEmpty_nil, if_true]
  · intro hlt
    have hne : (Q.drop P.length).isEmpty = false := by
      rw [List.isEmpty_eq_false_iff, ne_eq, List.drop_eq_nil_iff]
      omega
    have hsome : (appendPolicyRecords (Q.drop P.length) policy dir).policyLog.isSome = true := by
      simp [appendPolicyRecords, hne]
    rw [readChannelPolicy_of_getElem? hholds.there, readDirPolicy, if_pos hsome, hholds.policyLog]
    exact hderive

/-- **Taking in a moderation history** that the node's own begins. -/
theorem appendModeration {state : ModerationState} (h : Holds chan dir P M d)
    (hpre : idPrefix ModerationEvent.id M N = true)
    (hN : deriveModerationUnder chan P N = .ok state)
    (hderive : deriveModerationUnder chan P (extendedBy M N) = .ok state) :
    ∃ dir', (appendRemoteModerationHistory chan N).exec d =
        (.ok state, d.put chan.fullName dir') ∧
      Holds chan dir' P (extendedBy M N) (d.put chan.fullName dir') := by
  obtain ⟨log, hopen⟩ := h.openLog
  refine ⟨_, exec_appendRemoteModerationHistory hopen h.moderationLog
    ((h.deriveModeration N).trans hN) hpre, getElem?_put_self _ _ _, h.log, ?_⟩
  exact h.readable.moderationAppended hderive state

/-- Saving a policy history touches none of these files. -/
theorem savePolicy (h : Holds chan dir P M d) (hne : Q ≠ [])
    (hQ : derivePolicy chan Q = .ok policy) :
    ∃ last d', (savePolicyConflict chan Q).exec d = (.ok last, d') ∧
      d'.channels[chan.fullName]? = some dir ∧ SavedPolicy chan Q d' := by
  obtain ⟨last, hlast⟩ : ∃ last, Q.getLast? = some last :=
    ⟨_, List.getLast?_eq_some_getLast hne⟩
  obtain ⟨d', hexec, hthere, hsaved⟩ := exec_savePolicyConflict hQ hlast h.there
  refine ⟨last.id, d', hexec, hthere, last, hlast, readSaved_ok.2 ⟨_, hsaved, ?_⟩⟩
  exact Ndjson.parse_records policyCodec Q

/-- Saving a moderation history makes it the one held. -/
theorem saveModeration {state : ModerationState} (h : Holds chan dir P M d) (hne : N ≠ [])
    (hN : deriveModerationUnder chan P N = .ok state) :
    ∃ last d', (saveModerationConflict chan N).exec d = (.ok last, d') ∧
      d'.channels[chan.fullName]? = some dir ∧ SavedModeration chan N d' := by
  obtain ⟨last, hlast⟩ : ∃ last, N.getLast? = some last :=
    ⟨_, List.getLast?_eq_some_getLast hne⟩
  have hexec : (saveModerationConflict chan N).exec d = (.ok last.id,
      d.withFork (moderationConflictDir chan) last.id (moderationCodec.records N)) := by
    rw [saveModerationConflict, Op.exec_query_bind, h.deriveModeration, hN, hlast]
    rfl
  have hthere : (d.withFork (moderationConflictDir chan) last.id
      (moderationCodec.records N)).channels[chan.fullName]? = some dir :=
    getElem?_withFork_of_some (moderationConflictDir_ne chan) h.there
  refine ⟨last.id, _, hexec, hthere, last, hlast, ?_⟩
  refine readSaved_ok.2 ⟨moderationCodec.records N, ?_, ?_⟩
  · change Datadir.savedAt _ _ _ = _
    rw [savedAt_withFork, Function.update_self]
  · exact Ndjson.parse_records moderationCodec N

end Holds

/-! ## The responder -/

omit [Primitives] in
/-- A read that succeeds, and what is done with it. -/
theorem solo_ask_bind {α β : Type} {l : Call} {q : ReadM α} {f : α → Session β} {a : α}
    (h : q d = .ok a) : (ask l q >>= f).solo d = (f a).solo d :=
  solo_call_bind (by rw [Op.exec_query, h])

namespace Responder

variable {status : StatusMessage} {challenge : AuthChallenge} {ambient : Ambient} {key : String}

/-- The packet of a client is taken to the histories. -/
theorem solo_resume_status (hstatus : status.msgType = "status")
    (hcheck : checkStatus challenge status ambient.now ambient.now' = .ok chan) :
    (resume (.status challenge) (.text (Frame.status status).decoded, ambient)).solo d =
      (reconcile chan status ambient.nonces).solo d := by
  have hread : readStatus (.text (Frame.status status).decoded) = .ok status := by
    simp only [readStatus, bind_eq_ok, orBail_eq_ok, bailIf_eq_ok, pure_eq_ok]
    exact ⟨status, rfl, (), not_not.2 hstatus, rfl⟩
  rw [resume, solo_except_bind hread, solo_except_bind hcheck]

/-- A member is admitted, with the history there is. -/
theorem solo_admitRequester (h : Holds chan dir P M d) (hmember : Member chan key d) :
    (admitRequester chan key).solo d = ([], .ok P, d) := by
  obtain ⟨policy, hread, hallows⟩ := hmember
  rw [admitRequester, solo_ask_bind h.policyHistory, solo_ask_bind hread,
    solo_bailIf_bind (by simp [hallows]), solo_pure]

/-- **A fork of the policy histories** is saved and told, and ends the
session. -/
theorem solo_takePolicy_fork (h : Holds chan dir P M d) (hQ : derivePolicy chan Q = .ok policy)
    (hfork : ¬ Related PolicyEvent.id P Q) :
    ∃ d' e, (takePolicy chan P Q).solo d =
        ([.policySync ⟨"policy_sync", "conflict", P⟩], .error e, d') ∧
      d'.channels[chan.fullName]? = some dir ∧ SavedPolicy chan Q d' := by
  obtain ⟨-, hne, hneither⟩ := not_related hfork
  obtain ⟨last, d', hexec, hthere, hsaved⟩ := h.savePolicy hne hQ
  refine ⟨d', ["policy history fork"], ?_, hthere, hsaved⟩
  rw [takePolicy, if_pos hneither, solo_call_bind hexec]
  rfl

/-- **Histories that begin alike**: the responder ends with its own and
what the longer has beyond it. -/
theorem solo_takePolicy (h : Holds chan dir P M d) (hQ : derivePolicy chan Q = .ok policy)
    (hrelated : Related PolicyEvent.id P Q)
    (hderive : ∀ policy, derivePolicy chan Q = .ok policy →
      idPrefix PolicyEvent.id P Q = true → derivePolicy chan (extendedBy P Q) = .ok policy)
    (hmember : Member chan key d)
    (hagain : P.length < Q.length → ∀ policy, derivePolicy chan Q = .ok policy →
      policyAllowsRead policy key = true) :
    ∃ d' dir', (takePolicy chan P Q).solo d = ([], .ok (), d') ∧
      Holds chan dir' (extendedBy P (longer P Q)) M d' ∧ Member chan key d' ∧
      dir.SameBeside dir' ∧ (Q.length ≤ P.length → dir.Same dir') := by
  rw [takePolicy, if_neg (by rw [related_iff.1 hrelated]; simp)]
  by_cases hlt : P.length < Q.length
  · have hpre : idPrefix PolicyEvent.id P Q = true := by
      have := hrelated.idPrefix_longer.1
      rwa [longer, if_pos hlt] at this
    obtain ⟨dir', hexec, hholds, hbeside, -, hread⟩ :=
      h.appendPolicy hpre hQ (hderive _ hQ hpre)
    refine ⟨_, dir', ?_, ?_, ⟨policy, hread hlt, hagain hlt _ hQ⟩, hbeside, fun hle => ?_⟩
    · rw [if_pos (by simp [hpre, hlt]), solo_call_bind hexec, solo_pure]
    · rwa [longer, if_pos hlt]
    · omega
  · refine ⟨d, dir, ?_, ?_, hmember, ⟨rfl, rfl, rfl⟩, fun _ => ⟨⟨rfl, rfl, rfl⟩, rfl⟩⟩
    · rw [if_neg (by simp [hlt]), solo_pure]
    · rwa [longer, if_neg hlt, extendedBy_of_length_le le_rfl]

/-- A member is sent the history in full. -/
theorem solo_sendPolicy (h : Holds chan dir P M d) (hmember : Member chan key d) :
    (sendPolicy chan key).solo d =
      ([.policySync ⟨"policy_sync", "update", P⟩], .ok (), d) := by
  obtain ⟨policy, hread, hallows⟩ := hmember
  rw [sendPolicy, solo_ask_bind hread, solo_bailIf_bind (by simp [hallows]),
    solo_ask_bind h.policyHistory, solo_emit]

/-- **A fork of the moderation histories**, in the same way. -/
theorem solo_takeModeration_fork {state : ModerationState} (h : Holds chan dir P M d)
    (hN : deriveModerationUnder chan P N = .ok state)
    (hfork : ¬ Related ModerationEvent.id M N) :
    ∃ d' e, (takeModeration chan N).solo d =
        ([.moderationSync ⟨"moderation_sync", "conflict", M⟩], .error e, d') ∧
      d'.channels[chan.fullName]? = some dir ∧ SavedModeration chan N d' := by
  obtain ⟨-, hne, hneither⟩ := not_related hfork
  obtain ⟨last, d', hexec, hthere, hsaved⟩ := h.saveModeration hne hN
  refine ⟨d', ["moderation history fork"], ?_, hthere, hsaved⟩
  rw [takeModeration, solo_ask_bind ((h.deriveModeration N).trans hN),
    solo_ask_bind h.moderationHistory]
  dsimp only
  rw [if_pos hneither, solo_call_bind hexec]
  rfl

/-- A related moderation history is taken in as far as it goes further. -/
theorem solo_takeModeration {state : ModerationState} (h : Holds chan dir P M d)
    (hN : deriveModerationUnder chan P N = .ok state) (hrelated : Related ModerationEvent.id M N)
    (hderive : idPrefix ModerationEvent.id M N = true →
      deriveModerationUnder chan P (extendedBy M N) = .ok state) :
    ∃ d' dir', (takeModeration chan N).solo d = ([], .ok (), d') ∧
      Holds chan dir' P (extendedBy M (longer M N)) d' := by
  rw [takeModeration, solo_ask_bind ((h.deriveModeration N).trans hN),
    solo_ask_bind h.moderationHistory]
  dsimp only
  rw [if_neg (by rw [related_iff.1 hrelated]; simp)]
  by_cases hlt : M.length < N.length
  · have hpre : idPrefix ModerationEvent.id M N = true := by
      have := hrelated.idPrefix_longer.1
      rwa [longer, if_pos hlt] at this
    obtain ⟨dir', hexec, hholds⟩ := h.appendModeration hpre hN (hderive hpre)
    refine ⟨d.put chan.fullName dir', dir', ?_, ?_⟩
    · rw [if_pos (by simp [hpre, hlt]), solo_call_bind hexec, solo_pure]
    · rwa [longer, if_pos hlt]
  · refine ⟨d, dir, ?_, ?_⟩
    · rw [if_neg (by simp [hlt]), solo_pure]
    · rwa [longer, if_neg hlt, extendedBy_of_length_le le_rfl]

/-- And what the node then has is sent back in full. -/
theorem solo_sendModeration (h : Holds chan dir P M d) :
    (sendModeration chan).solo d =
      ([.moderationSync ⟨"moderation_sync", "update", M⟩], .ok (), d) := by
  rw [sendModeration, solo_ask_bind h.moderationHistory, solo_emit]

end Responder

/-! ## The initiator -/

namespace Initiator

variable (identity : KeypairFile) (n : ℕ) (given : Given)

omit [Primitives] in
/-- The two statuses are not those of a last frame. -/
theorem ne_of_update_or_conflict {status : String} (h : status = "update" ∨ status = "conflict") :
    status ≠ "complete" ∧ status ≠ "error" := by
  rcases h with rfl | rfl <;> decide

omit [Primitives] in
/-- The texts of the two history frames are taken for what they are. -/
theorem classify_policySync {m : PolicySync} (htype : m.msgType = "policy_sync")
    (hcomplete : m.status ≠ "complete") (herror : m.status ≠ "error") :
    classify (Frame.policySync m).decoded = .policySync m := by
  simp [classify, Frame.decoded, htype, hcomplete, herror, Option.filter]

omit [Primitives] in
/-- So a moderation frame is taken for one. -/
theorem classify_moderationSync {m : ModerationSync} (htype : m.msgType = "moderation_sync")
    (hcomplete : m.status ≠ "complete") (herror : m.status ≠ "error") :
    classify (Frame.moderationSync m).decoded = .moderationSync m := by
  have hother : ¬ m.msgType = "policy_sync" := by
    rw [htype]
    decide
  by_cases hnil : m.events = [] <;>
    simp [classify, Frame.decoded, htype, hcomplete, herror, Option.filter, hnil]

/-- **An update of the policy history** is taken in. -/
theorem solo_policyUpdate (h : Holds chan dir P M d) (hQ : derivePolicy chan Q = .ok policy)
    (hpre : idPrefix PolicyEvent.id P Q = true)
    (hderive : derivePolicy chan (extendedBy P Q) = .ok policy) :
    ∃ d' dir', (resume (.frames chan identity n)
        (.text (Frame.policySync ⟨"policy_sync", "update", Q⟩).decoded, given)).solo d =
          ([], .ok (.frames chan identity n), d') ∧
      Holds chan dir' (extendedBy P Q) M d' ∧ dir.SameBeside dir' ∧
      (Q.length ≤ P.length → dir.Same dir') := by
  obtain ⟨dir', hexec, hholds, hbeside, hsame, -⟩ := h.appendPolicy hpre hQ hderive
  refine ⟨_, dir', ?_, hholds, hbeside, hsame⟩
  have htake : (takePolicySync chan ⟨"policy_sync", "update", Q⟩).solo d =
      ([], .ok (), d.put chan.fullName dir') := by
    rw [takePolicySync, if_neg (by simp), solo_bailIf_bind (by simp), solo_call_bind hexec,
      solo_pure]
  rw [resume_text, classify_policySync rfl (by simp) (by simp), handle, solo_bind_of_ok htake]
  rfl

/-- **A conflict of the policy history** is saved and ends the session. -/
theorem solo_policyConflict (h : Holds chan dir P M d) (hQ : derivePolicy chan Q = .ok policy)
    (hne : Q ≠ []) :
    ∃ d' e, (resume (.frames chan identity n)
        (.text (Frame.policySync ⟨"policy_sync", "conflict", Q⟩).decoded, given)).solo d =
          ([], .error e, d') ∧
      d'.channels[chan.fullName]? = some dir ∧ SavedPolicy chan Q d' := by
  obtain ⟨last, d', hexec, hthere, hsaved⟩ := h.savePolicy hne hQ
  refine ⟨d', ["policy history fork"], ?_, hthere, hsaved⟩
  have htake : (takePolicySync chan ⟨"policy_sync", "conflict", Q⟩).solo d =
      ([], .error ["policy history fork"], d') := by
    rw [takePolicySync, if_pos rfl, solo_call_bind hexec]
    rfl
  rw [resume_text, classify_policySync rfl (by simp) (by simp), handle, solo_bind_of_error htake]

/-- An update of the moderation history. -/
theorem solo_moderationUpdate {state : ModerationState} (h : Holds chan dir P M d)
    (hN : deriveModerationUnder chan P N = .ok state)
    (hpre : idPrefix ModerationEvent.id M N = true)
    (hderive : deriveModerationUnder chan P (extendedBy M N) = .ok state) :
    ∃ d' dir', (resume (.frames chan identity n)
        (.text (Frame.moderationSync ⟨"moderation_sync", "update", N⟩).decoded, given)).solo d =
          ([], .ok (.frames chan identity n), d') ∧
      Holds chan dir' P (extendedBy M N) d' := by
  obtain ⟨dir', hexec, hholds⟩ := h.appendModeration hpre hN hderive
  refine ⟨_, dir', ?_, hholds⟩
  have htake : (takeModerationSync chan ⟨"moderation_sync", "update", N⟩).solo d =
      ([], .ok (), d.put chan.fullName dir') := by
    rw [takeModerationSync, if_neg (by simp), solo_bailIf_bind (by simp), solo_call_bind hexec,
      solo_pure]
  rw [resume_text, classify_moderationSync rfl (by simp) (by simp), handle, solo_bind_of_ok htake]
  rfl

/-- A moderation that forks is saved as a conflict, and refused. -/
theorem solo_moderationConflict {state : ModerationState} (h : Holds chan dir P M d)
    (hN : deriveModerationUnder chan P N = .ok state) (hne : N ≠ []) :
    ∃ d' e, (resume (.frames chan identity n)
        (.text (Frame.moderationSync ⟨"moderation_sync", "conflict", N⟩).decoded, given)).solo d =
          ([], .error e, d') ∧
      d'.channels[chan.fullName]? = some dir ∧ SavedModeration chan N d' := by
  obtain ⟨last, d', hexec, hthere, hsaved⟩ := h.saveModeration hne hN
  refine ⟨d', ["moderation history fork"], ?_, hthere, hsaved⟩
  have htake : (takeModerationSync chan ⟨"moderation_sync", "conflict", N⟩).solo d =
      ([], .error ["moderation history fork"], d') := by
    rw [takeModerationSync, if_pos rfl, solo_call_bind hexec]
    rfl
  rw [resume_text, classify_moderationSync rfl (by simp) (by simp), handle,
    solo_bind_of_error htake]

end Initiator

/-! ## The two of them -/

/-- The initiator's start leaves what it reads as it was. -/
theorem Initiator.solo_start {ts : Int64} {ms : List Frame} {chunks : List ChunkSummary}
    {identity : KeypairFile} (h : Holds chan dir P M d)
    (hstart : (Initiator.start chan.fullName ts).solo d =
      (ms, .ok (.challenge chan chunks Q N identity ts), d')) :
    Q = P ∧ N = M ∧ ∃ dir', dir.Same dir' ∧ Holds chan dir' P M d' := by
  simp only [Initiator.start, ask, solo_bind_ok, solo_except, solo_call, solo_pure, Op.exec_query,
    Prod.mk.injEq, Except.ok.injEq, Initiator.Await.challenge.injEq] at hstart
  obtain ⟨chan, _, _, _, ⟨-, -, rfl⟩, ⟨chunks, _, _, t, ⟨-, hchunks⟩, ⟨_, _, _, _, ⟨-, hP, rfl⟩,
    ⟨_, _, _, _, ⟨-, hM, rfl⟩, ⟨_, _, _, _, ⟨-, -, rfl⟩, ⟨-, ⟨rfl, rfl, rfl, rfl, -⟩, rfl⟩, -⟩, -⟩,
    -⟩, -⟩, -⟩ := hstart
  have hindex : IndexFree (There dir.Same) := by
    intro dir₁ _ _ _ _ hsame
    have hsame := There.of_some.1 hsame
    exact There.of_some.2 ⟨⟨hsame.moderationLog, hsame.log, hsame.channelKeys⟩, hsame.policyLog⟩
  have hsummaries : Op.Keeps (DirIs chan.fullName (There dir.Same)) (chunkSummaries chan) :=
    keeps_readIndexed (fun _ => hindex) fun _ db => indexSummaries db
  have hkeeps := hsummaries d ⟨dir, h.there, ⟨⟨rfl, rfl, rfl⟩, rfl⟩⟩
  rw [hchunks] at hkeeps
  obtain ⟨dir', hthere, hsame⟩ := hkeeps
  have hholds := h.same hsame hthere
  refine ⟨?_, ?_, dir', hsame, hholds⟩
  · exact Except.ok.inj (hP.symm.trans hholds.policyHistory)
  · exact Except.ok.inj (hM.symm.trans hholds.moderationHistory)

/-- The packet carries what was read. -/
theorem Initiator.solo_answer {ts : Int64} {chunks : List ChunkSummary}
    {identity : KeypairFile} {challenge : AuthChallenge} {status : StatusMessage} {given : Given}
    {a : Initiator.Await}
    (hanswer : (Initiator.resume (.challenge chan chunks P M identity ts)
      (.text (Frame.challenge challenge).decoded, given)).solo d = ([.status status], .ok a, d')) :
    status.msgType = "status" ∧ status.policyEvents = P ∧ status.moderationEvents = M ∧
      a = .frames chan identity 0 ∧ d' = d := by
  simp only [Initiator.resume, solo_bind_ok, solo_except, solo_emit, solo_pure, Prod.mk.injEq,
    Except.ok.injEq] at hanswer
  obtain ⟨_, _, _, _, ⟨rfl, -, rfl⟩, ⟨status', _, _, _, ⟨rfl, hstatus, rfl⟩,
    ⟨_, _, _, _, ⟨rfl, -, rfl⟩, ⟨rfl, rfl, rfl⟩, rfl⟩, rfl⟩, hsent⟩ := hanswer
  obtain ⟨_, _, -, -, -, rfl⟩ := Initiator.answerChallenge_ok.1 hstatus
  cases hsent
  exact ⟨rfl, rfl, rfl, rfl, rfl⟩

/-- Two nodes have met, with nobody else writing: the initiator has read
its histories and answered the challenge, and the responder takes the
packet from somebody whom its policy admits, before and after it takes in
the policy. -/
structure Meeting (chan : ChannelRef) (identity : KeypairFile) (challenge : AuthChallenge)
    (status : StatusMessage) (ambient : Ambient) (L R : List PolicyEvent)
    (M N : List ModerationEvent) (dR d₀ dI : Datadir) : Prop where
  responder : ∃ dir, Holds chan dir L M dR
  initiator : ∃ dir, Holds chan dir R N d₀
  asked : ∃ ts ms chunks P N' given,
    (Initiator.start chan.fullName ts).solo d₀ =
      (ms, .ok (.challenge chan chunks P N' identity ts), dI) ∧
    (Initiator.resume (.challenge chan chunks P N' identity ts)
      (.text (Frame.challenge challenge).decoded, given)).solo dI =
        ([.status status], .ok (.frames chan identity 0), dI)
  taken : Responder.checkStatus challenge status ambient.now ambient.now' = .ok chan
  member : Member chan status.requester dR
  again : idPrefix PolicyEvent.id L R = true → L.length < R.length →
    ∀ policy, derivePolicy chan R = .ok policy → policyAllowsRead policy status.requester = true

/-- The responder's part, from the packet on: what it sends, how it ends
or that it waits for keys, and what it leaves. -/
def responds (challenge : AuthChallenge) (status : StatusMessage) (ambient : Ambient)
    (d : Datadir) : List Frame × Except Error Responder.Await × Datadir :=
  (Responder.resume (.status challenge) (.text (Frame.status status).decoded, ambient)).solo d

/-- The initiator's part, for one frame. -/
def hears (chan : ChannelRef) (identity : KeypairFile) (given : Given) (m : Frame) (d : Datadir) :
    List Frame × Except Error Initiator.Await × Datadir :=
  (Initiator.resume (.frames chan identity 0) (.text m.decoded, given)).solo d

/-- What the meeting comes to, told by the packet's own fields. -/
theorem Meeting.opened {identity : KeypairFile} {challenge : AuthChallenge}
    {status : StatusMessage} {ambient : Ambient} {L R : List PolicyEvent} {dR d₀ dI : Datadir}
    (h : Meeting chan identity challenge status ambient L R M N dR d₀ dI) :
    status.msgType = "status" ∧ status.policyEvents = R ∧ status.moderationEvents = N ∧
      ∃ dir₀ dir, Holds chan dir₀ R N d₀ ∧ dir₀.Same dir ∧ Holds chan dir R N dI := by
  obtain ⟨dir₀, h₀⟩ := h.initiator
  obtain ⟨ts, ms, chunks, P, N', given, hstart, hanswer⟩ := h.asked
  obtain ⟨rfl, rfl, dir, hsame, hI⟩ := Initiator.solo_start h₀ hstart
  obtain ⟨htype, hpolicy, hmoderation, -⟩ := Initiator.solo_answer hanswer
  exact ⟨htype, hpolicy, hmoderation, dir₀, dir, h₀, hsame, hI⟩

/-! ## Agreement and forks -/

/-- The moderation derives the same under a policy history that has the
ids of this one. -/
theorem deriveModerationUnder_of_ids {policy' : ChannelPolicy} {state : ModerationState}
    (hU : Set.InjOn blake3 U) (hP : derivePolicy chan P = .ok policy)
    (hQ : derivePolicy chan Q = .ok policy') (hPU : policyPayloads P ⊆ U)
    (hQU : policyPayloads Q ⊆ U) (hids : P.map PolicyEvent.id ⊆ Q.map PolicyEvent.id)
    (h : deriveModerationUnder chan P M = .ok state) :
    deriveModerationUnder chan Q M = .ok state := by
  refine deriveModerationUnder_of_cited (fun e _ position cited hcited => ?_) h
  refine hcited.shared hU hP hQ hPU hQU (hids ?_)
  obtain ⟨hi, hid, -⟩ := List.findIdx?_eq_some_iff_getElem.1 hcited.1
  exact List.mem_map.2 ⟨_, List.getElem_mem hi, beq_iff_eq.1 hid⟩

/-- Both nodes hold the longer policy history: each its own events, and
what the longer has beyond them. Event by event these agree with the
longer one, and derive its policy. -/
structure PolicyAgreed (chan : ChannelRef) (L R : List PolicyEvent) (dR dI : Datadir) : Prop where
  responder : readPolicyHistory chan dR = .ok (extendedBy L (longer L R))
  initiator : readPolicyHistory chan dI = .ok (extendedBy R (longer L R))
  responder_agrees : List.Forall₂ PolicyEvent.Agrees (extendedBy L (longer L R)) (longer L R)
  initiator_agrees : List.Forall₂ PolicyEvent.Agrees (extendedBy R (longer L R)) (longer L R)
  derived : ∃ policy, derivePolicy chan (longer L R) = .ok policy ∧
    derivePolicy chan (extendedBy L (longer L R)) = .ok policy ∧
    derivePolicy chan (extendedBy R (longer L R)) = .ok policy

/-- The same of the moderation histories, under the policy histories that
the two hold. -/
structure ModerationAgreed (chan : ChannelRef) (L R : List PolicyEvent)
    (M N : List ModerationEvent) (dR dI : Datadir) : Prop where
  responder : readModerationHistory chan dR = .ok (extendedBy M (longer M N))
  initiator : readModerationHistory chan dI = .ok (extendedBy N (longer M N))
  responder_agrees : List.Forall₂ ModerationEvent.Agrees (extendedBy M (longer M N)) (longer M N)
  initiator_agrees : List.Forall₂ ModerationEvent.Agrees (extendedBy N (longer M N)) (longer M N)
  derived : ∃ state,
    deriveModerationUnder chan (extendedBy L (longer L R)) (extendedBy M (longer M N)) =
      .ok state ∧
    deriveModerationUnder chan (extendedBy R (longer L R)) (extendedBy N (longer M N)) =
      .ok state

/-- The session has ended on this side in an error, and nothing that
counts was changed. -/
def Aborted {α : Type} (chan : ChannelRef) (d : Datadir)
    (r : List Frame × Except Error α × Datadir) : Prop :=
  (∃ e, r.2.1 = .error e) ∧ Unchanged chan d r.2.2

section Pure

variable {L R : List PolicyEvent} {policy' : ChannelPolicy}

/-- **The longer history may be taken in**, on either side. -/
theorem derivePolicy_longer (hU : Set.InjOn blake3 U) (hL : derivePolicy chan L = .ok policy)
    (hR : derivePolicy chan R = .ok policy') (hLU : policyPayloads L ⊆ U)
    (hRU : policyPayloads R ⊆ U) (hrelated : Related PolicyEvent.id L R) :
    ∃ policy, derivePolicy chan (longer L R) = .ok policy ∧ policyPayloads (longer L R) ⊆ U ∧
      derivePolicy chan (extendedBy L (longer L R)) = .ok policy ∧
      derivePolicy chan (extendedBy R (longer L R)) = .ok policy := by
  obtain ⟨hpreL, hpreR⟩ := hrelated.idPrefix_longer
  obtain ⟨p, hlonger, hsub⟩ : ∃ p, derivePolicy chan (longer L R) = .ok p ∧
      policyPayloads (longer L R) ⊆ U :=
    longer_of (p := fun K => ∃ p, derivePolicy chan K = .ok p ∧ policyPayloads K ⊆ U)
      ⟨_, hL, hLU⟩ ⟨_, hR, hRU⟩
  exact ⟨p, hlonger, hsub,
    derivePolicy_exchange hU hL hlonger hLU hsub (idPrefix_iff.1 hpreL),
    derivePolicy_exchange hU hR hlonger hRU hsub (idPrefix_iff.1 hpreR)⟩

omit [Primitives] in
/-- An extended policy history hashes nothing new. -/
theorem policyPayloads_extendedBy (hPU : policyPayloads P ⊆ U) (hQU : policyPayloads Q ⊆ U) :
    policyPayloads (extendedBy P Q) ⊆ U := by
  rintro b ⟨e, he, rfl⟩
  rcases mem_extendedBy he with he | he
  · exact hPU ⟨e, he, rfl⟩
  · exact hQU ⟨e, he, rfl⟩

omit [Primitives] in
/-- An extended moderation history hashes nothing new. -/
theorem moderationPayloads_extendedBy (hMU : moderationPayloads M ⊆ U)
    (hNU : moderationPayloads N ⊆ U) : moderationPayloads (extendedBy M N) ⊆ U := by
  rintro b ⟨e, he, rfl⟩
  rcases mem_extendedBy he with he | he
  · exact hMU ⟨e, he, rfl⟩
  · exact hNU ⟨e, he, rfl⟩

/-- Both extended histories agree with the longer one, event by event. -/
theorem agrees_longer (hU : Set.InjOn blake3 U) (hL : derivePolicy chan L = .ok policy)
    (hR : derivePolicy chan R = .ok policy') (hLU : policyPayloads L ⊆ U)
    (hRU : policyPayloads R ⊆ U) (hrelated : Related PolicyEvent.id L R) :
    List.Forall₂ PolicyEvent.Agrees (extendedBy L (longer L R)) (longer L R) ∧
      List.Forall₂ PolicyEvent.Agrees (extendedBy R (longer L R)) (longer L R) := by
  obtain ⟨hpreL, hpreR⟩ := hrelated.idPrefix_longer
  obtain ⟨p, hlonger, hsub, hL', hR'⟩ := derivePolicy_longer hU hL hR hLU hRU hrelated
  exact ⟨agrees_of_ids hU hL' hlonger (policyPayloads_extendedBy hLU hsub) hsub
      (List.Subset.refl _) (List.Subset.refl _) (map_extendedBy hpreL),
    agrees_of_ids hU hR' hlonger (policyPayloads_extendedBy hRU hsub) hsub
      (List.Subset.refl _) (List.Subset.refl _) (map_extendedBy hpreR)⟩

/-- The same of moderation histories, under one policy history. -/
theorem deriveModeration_longer {state state' : ModerationState} (hU : Set.InjOn blake3 U)
    (hM : deriveModerationUnder chan P M = .ok state)
    (hN : deriveModerationUnder chan P N = .ok state') (hMU : moderationPayloads M ⊆ U)
    (hNU : moderationPayloads N ⊆ U) (hrelated : Related ModerationEvent.id M N) :
    ∃ state, deriveModerationUnder chan P (extendedBy M (longer M N)) = .ok state ∧
      deriveModerationUnder chan P (extendedBy N (longer M N)) = .ok state ∧
      List.Forall₂ ModerationEvent.Agrees (extendedBy M (longer M N)) (longer M N) ∧
      List.Forall₂ ModerationEvent.Agrees (extendedBy N (longer M N)) (longer M N) := by
  obtain ⟨hpreM, hpreN⟩ := hrelated.idPrefix_longer
  obtain ⟨s, hlonger, hsub⟩ : ∃ s, deriveModerationUnder chan P (longer M N) = .ok s ∧
      moderationPayloads (longer M N) ⊆ U :=
    longer_of (p := fun K => ∃ s, deriveModerationUnder chan P K = .ok s ∧
      moderationPayloads K ⊆ U) ⟨_, hM, hMU⟩ ⟨_, hN, hNU⟩
  have hboth {K : List ModerationEvent} {sK : ModerationState}
      (hK : deriveModerationUnder chan P K = .ok sK) (hKU : moderationPayloads K ⊆ U)
      (hpre : idPrefix ModerationEvent.id K (longer M N) = true) :
      deriveModerationUnder chan P (extendedBy K (longer M N)) = .ok s ∧
        List.Forall₂ ModerationEvent.Agrees (extendedBy K (longer M N)) (longer M N) := by
    have hK' := deriveModeration_exchange hU hK hlonger hKU hsub (idPrefix_iff.1 hpre)
    exact ⟨hK', moderation_agrees_of_ids hU hK' hlonger (moderationPayloads_extendedBy hKU hsub)
      hsub (List.Subset.refl _) (List.Subset.refl _) (map_extendedBy hpre)⟩
  exact ⟨s, (hboth hM hMU hpreM).1, (hboth hN hNU hpreN).1, (hboth hM hMU hpreM).2,
    (hboth hN hNU hpreN).2⟩

end Pure

/-! ## The meeting -/

section Meeting

variable {identity : KeypairFile} {challenge : AuthChallenge} {status : StatusMessage}
  {ambient : Ambient} {L R : List PolicyEvent} {dR d₀ dI : Datadir}

/-- What remains of the responder's part behind the policy. -/
def afterPolicy (chan : ChannelRef) (status : StatusMessage) (ambient : Ambient) :
    Session Responder.Await := do
  Responder.takeModeration chan status.moderationEvents
  Responder.sendModeration chan
  Responder.sendKeys chan status ambient.nonces

/-- **Policy histories that fork**, on the responder. -/
theorem Meeting.responds_fork (h : Meeting chan identity challenge status ambient L R M N dR d₀ dI)
    (hfork : ¬ Related PolicyEvent.id L R) :
    ∃ d' e, responds challenge status ambient dR =
        ([.policySync ⟨"policy_sync", "conflict", L⟩], .error e, d') ∧
      Unchanged chan dR d' ∧ SavedPolicy chan R d' := by
  obtain ⟨htype, hpolicy, -, dir₀, dir, h₀, -, -⟩ := h.opened
  obtain ⟨dirR, hR⟩ := h.responder
  obtain ⟨pR, hderive⟩ := h₀.derivable
  obtain ⟨d', e, htake, hthere, hsaved⟩ := Responder.solo_takePolicy_fork hR hderive hfork
  refine ⟨d', e, ?_, ⟨dirR, dirR, hR.there, hthere, ⟨⟨rfl, rfl, rfl⟩, rfl⟩⟩, hsaved⟩
  rw [responds, Responder.solo_resume_status htype h.taken, Responder.reconcile,
    solo_bind_of_ok (Responder.solo_admitRequester hR h.member), hpolicy,
    solo_bind_of_error htake]
  rfl

/-- **Policy histories that begin alike**, on the responder: it holds the
longer one, sends it, and goes on. -/
theorem Meeting.responds_related
    (h : Meeting chan identity challenge status ambient L R M N dR d₀ dI)
    (hU : Set.InjOn blake3 U) (hLU : policyPayloads L ⊆ U) (hRU : policyPayloads R ⊆ U)
    (hrelated : Related PolicyEvent.id L R) :
    ∃ dir d₁ dir₁, dR.channels[chan.fullName]? = some dir ∧
      responds challenge status ambient dR =
        (.policySync ⟨"policy_sync", "update", extendedBy L (longer L R)⟩ ::
          ((afterPolicy chan status ambient).solo d₁).1,
            ((afterPolicy chan status ambient).solo d₁).2) ∧
      Holds chan dir₁ (extendedBy L (longer L R)) M d₁ ∧ dir.SameBeside dir₁ ∧
      (R.length ≤ L.length → dir.Same dir₁) := by
  obtain ⟨htype, hpolicy, -, dir₀, dirI, h₀, -, -⟩ := h.opened
  obtain ⟨dirR, hR⟩ := h.responder
  obtain ⟨pL, hL⟩ := hR.derivable
  obtain ⟨pR, hderive⟩ := h₀.derivable
  have hexchange (policy : ChannelPolicy) (hpR : derivePolicy chan R = .ok policy)
      (hpre : idPrefix PolicyEvent.id L R = true) :
      derivePolicy chan (extendedBy L R) = .ok policy :=
    derivePolicy_exchange hU hL hpR hLU hRU (idPrefix_iff.1 hpre)
  have hagain : L.length < R.length → ∀ policy, derivePolicy chan R = .ok policy →
      policyAllowsRead policy status.requester = true := by
    intro hlt
    have hpre := hrelated.idPrefix_longer.1
    rw [longer, if_pos hlt] at hpre
    exact h.again hpre hlt
  obtain ⟨d₁, dir₁, htake, h₁, hmember, hbeside, hsame⟩ :=
    Responder.solo_takePolicy hR hderive hrelated hexchange h.member hagain
  refine ⟨dirR, d₁, dir₁, hR.there, ?_, h₁, hbeside, hsame⟩
  rw [responds, Responder.solo_resume_status htype h.taken, Responder.reconcile,
    solo_bind_of_ok (Responder.solo_admitRequester hR h.member), hpolicy, solo_bind_of_ok htake,
    solo_bind_of_ok (Responder.solo_sendPolicy h₁ hmember)]
  rfl

omit [Primitives] in
/-- A call that writes nothing. -/
def Reading (β : Type) (_ : Call) (x : StoreM β) : Prop := ∀ d, (x.exec d).2 = d

/-- The key frame is made by reading alone. -/
theorem reading_sendKeys :
    (Responder.sendKeys chan status ambient.nonces).Each Reading := by
  have hquery {β : Type} {l : Call} (q : ReadM β) : Reading β l (liftM q) := fun _ => rfl
  have hidentity (policy : ChannelPolicy) : (Responder.serverIdentity policy).Each Reading := by
    rw [Responder.serverIdentity]
    split
    · exact (each_call (hquery _)).bind fun _ => each_bailIf.bind fun _ => trivial
    · trivial
  have hoffers (identity : Option KeypairFile) : (Responder.keyOffers chan status.requester
      ambient.nonces identity).Each Reading := by
    cases identity with
    | none => trivial
    | some identity => exact each_call (hquery _)
  exact (each_call (hquery _)).bind fun policy => each_bailIf.bind fun _ =>
    (hidentity policy).bind fun identity => (hoffers identity).bind fun _ => trivial

/-- Reads leave the node as it is. -/
theorem solo_sendKeys (d : Datadir) :
    ((Responder.sendKeys chan status ambient.nonces).solo d).2.2 = d :=
  solo_keeps (I := (· = d)) reading_sendKeys (fun _ _ _ hx s hs => (hx s).trans hs) rfl

/-- Moderation histories that fork, behind the policy. -/
theorem afterPolicy_fork (ambient : Ambient) {dir : Dir} {state : ModerationState}
    (h : Holds chan dir P M d)
    (hstatus : status.moderationEvents = N) (hN : deriveModerationUnder chan P N = .ok state)
    (hfork : ¬ Related ModerationEvent.id M N) :
    ∃ d' e, (afterPolicy chan status ambient).solo d =
        ([.moderationSync ⟨"moderation_sync", "conflict", M⟩], .error e, d') ∧
      d'.channels[chan.fullName]? = some dir ∧ SavedModeration chan N d' := by
  obtain ⟨d', e, htake, hthere, hsaved⟩ := Responder.solo_takeModeration_fork h hN hfork
  refine ⟨d', e, ?_, hthere, hsaved⟩
  rw [afterPolicy, hstatus, solo_bind_of_error htake]

/-- Moderation histories that begin alike, behind the policy. -/
theorem afterPolicy_related (ambient : Ambient) {dir : Dir} {state : ModerationState}
    (h : Holds chan dir P M d)
    (hstatus : status.moderationEvents = N) (hN : deriveModerationUnder chan P N = .ok state)
    (hrelated : Related ModerationEvent.id M N)
    (hderive : idPrefix ModerationEvent.id M N = true →
      deriveModerationUnder chan P (extendedBy M N) = .ok state) :
    ∃ rest r d' dir', (afterPolicy chan status ambient).solo d =
        (.moderationSync ⟨"moderation_sync", "update", extendedBy M (longer M N)⟩ :: rest, r, d') ∧
      Holds chan dir' P (extendedBy M (longer M N)) d' := by
  obtain ⟨d', dir', htake, h'⟩ := Responder.solo_takeModeration h hN hrelated hderive
  rw [afterPolicy, hstatus, solo_bind_of_ok htake,
    solo_bind_of_ok (Responder.solo_sendModeration h')]
  refine ⟨_, _, _, dir', rfl, ?_⟩
  rw [solo_sendKeys]
  exact h'

/-- **The initiator hears the policy history** that the responder then
holds, and holds it too. -/
theorem Meeting.hears_policy
    (h : Meeting chan identity challenge status ambient L R M N dR d₀ dI)
    (hU : Set.InjOn blake3 U) (hLU : policyPayloads L ⊆ U) (hRU : policyPayloads R ⊆ U)
    (hrelated : Related PolicyEvent.id L R) (given : Given) :
    ∃ dir₀ d₁ dir₁, d₀.channels[chan.fullName]? = some dir₀ ∧
      hears chan identity given
        (.policySync ⟨"policy_sync", "update", extendedBy L (longer L R)⟩) dI =
          ([], .ok (.frames chan identity 0), d₁) ∧
      Holds chan dir₁ (extendedBy R (longer L R)) N d₁ ∧ dir₀.SameBeside dir₁ ∧
      (L.length = R.length → dir₀.Same dir₁) := by
  obtain ⟨-, -, -, dir₀, dirI, h₀, hsame, hI⟩ := h.opened
  obtain ⟨dirR, hR⟩ := h.responder
  obtain ⟨pL, hL⟩ := hR.derivable
  obtain ⟨pR, hderive⟩ := h₀.derivable
  obtain ⟨p, -, -, hL', hR'⟩ := derivePolicy_longer hU hL hderive hLU hRU hrelated
  obtain ⟨hpreL, hpreR⟩ := hrelated.idPrefix_longer
  obtain ⟨d₁, dir₁, hears, h₁, hbeside, hsame₁⟩ := Initiator.solo_policyUpdate identity 0 given
    hI hL'
    (idPrefix_of_ids hpreR (map_extendedBy hpreL)) (by rwa [extendedBy_extendedBy])
  rw [extendedBy_extendedBy] at h₁
  refine ⟨dir₀, d₁, dir₁, h₀.there, hears, h₁, ?_, fun hlength => hsame.trans (hsame₁ ?_)⟩
  · exact ⟨hbeside.moderationLog.trans hsame.moderationLog, hbeside.log.trans hsame.log,
      hbeside.channelKeys.trans hsame.channelKeys⟩
  · rw [longer, if_neg (by omega), extendedBy_of_length_le le_rfl]
    exact hlength.le

end Meeting

/-- **Reconciliation**, of two nodes that meet with nobody else writing.

* Policy histories of which neither begins the other: the responder sends
  its own as a conflict; both sessions end in an error, nothing that counts
  is changed, and each node has saved the other's history.
* Policy histories of which one begins the other: the responder sends the
  longer one, and with the initiator's taking it in both hold it.
* Then the same of the moderation histories. Where they fork nothing
  changes beside the policy, and where the policies were one already
  nothing at all. -/
theorem reconciliation_trichotomy {identity : KeypairFile} {challenge : AuthChallenge}
    {status : StatusMessage} {ambient : Ambient} {L R : List PolicyEvent} {dR d₀ dI : Datadir}
    (h : Meeting chan identity challenge status ambient L R M N dR d₀ dI)
    (hU : Set.InjOn blake3 U) (hLU : policyPayloads L ⊆ U) (hRU : policyPayloads R ⊆ U)
    (hMU : moderationPayloads M ⊆ U) (hNU : moderationPayloads N ⊆ U) :
    let r := responds challenge status ambient dR
    (¬ Related PolicyEvent.id L R →
      r.1 = [.policySync ⟨"policy_sync", "conflict", L⟩] ∧ Aborted chan dR r ∧
        SavedPolicy chan R r.2.2 ∧
      ∀ given,
        let i := hears chan identity given (.policySync ⟨"policy_sync", "conflict", L⟩) dI
        Aborted chan d₀ i ∧ SavedPolicy chan L i.2.2) ∧
    (Related PolicyEvent.id L R → ∃ rest,
      r.1 = .policySync ⟨"policy_sync", "update", extendedBy L (longer L R)⟩ :: rest ∧
      ∀ given,
        let i := hears chan identity given
          (.policySync ⟨"policy_sync", "update", extendedBy L (longer L R)⟩) dI
        i.2.1 = .ok (.frames chan identity 0) ∧ PolicyAgreed chan L R r.2.2 i.2.2 ∧
        (¬ Related ModerationEvent.id M N →
          rest = [.moderationSync ⟨"moderation_sync", "conflict", M⟩] ∧
          (∃ e, r.2.1 = .error e) ∧ UnchangedBeside chan dR r.2.2 ∧
          (L.length = R.length → Unchanged chan dR r.2.2) ∧ SavedModeration chan N r.2.2 ∧
          ∀ given',
            let j := hears chan identity given'
              (.moderationSync ⟨"moderation_sync", "conflict", M⟩) i.2.2
            (∃ e, j.2.1 = .error e) ∧ UnchangedBeside chan d₀ j.2.2 ∧
            (L.length = R.length → Unchanged chan d₀ j.2.2) ∧ SavedModeration chan M j.2.2) ∧
        (Related ModerationEvent.id M N → ∃ rest',
          rest = .moderationSync ⟨"moderation_sync", "update", extendedBy M (longer M N)⟩ ::
            rest' ∧
          ∀ given',
            let j := hears chan identity given'
              (.moderationSync ⟨"moderation_sync", "update", extendedBy M (longer M N)⟩) i.2.2
            j.2.1 = .ok (.frames chan identity 0) ∧
              ModerationAgreed chan L R M N r.2.2 j.2.2)) := by
  obtain ⟨-, -, hmoderation, dir₀, dirI, h₀, hsameI, hI⟩ := h.opened
  obtain ⟨dirR, hR⟩ := h.responder
  obtain ⟨pL, hL⟩ := hR.derivable
  obtain ⟨pR, hpR⟩ := h₀.derivable
  dsimp only
  refine ⟨fun hfork => ?_, fun hrelated => ?_⟩
  · obtain ⟨d', e, hresponds, hunchanged, hsaved⟩ := h.responds_fork hfork
    rw [hresponds]
    refine ⟨rfl, ⟨⟨e, rfl⟩, hunchanged⟩, hsaved, fun given => ?_⟩
    obtain ⟨d'', e', hhears, hthere, hsaved'⟩ := Initiator.solo_policyConflict
      identity 0 given hI hL (not_related hfork).1
    rw [hears, hhears]
    exact ⟨⟨⟨e', rfl⟩, dir₀, dirI, h₀.there, hthere, hsameI⟩, hsaved'⟩
  · obtain ⟨dR', d₁, dir₁, hthere, hresponds, h₁, hbeside, hsame⟩ :=
      h.responds_related hU hLU hRU hrelated
    obtain rfl : dR' = dirR := Option.some.inj (hthere.symm.trans hR.there)
    obtain ⟨pX, hX, hXU, hL', hR'⟩ := derivePolicy_longer hU hL hpR hLU hRU hrelated
    obtain ⟨hpreL, hpreR⟩ := hrelated.idPrefix_longer
    have hL'U := policyPayloads_extendedBy hLU hXU
    have hR'U := policyPayloads_extendedBy hRU hXU
    -- the initiator's moderation derives under the policy that both now have
    obtain ⟨sN, hN⟩ := h₀.readable.derived
    have hids : R.map PolicyEvent.id ⊆ (extendedBy L (longer L R)).map PolicyEvent.id := by
      rw [map_extendedBy hpreL, idPrefix_iff.1 hpreR]
      exact List.map_subset _ (List.take_subset _ _)
    have hN' := deriveModerationUnder_of_ids hU hpR hL' hRU hL'U hids hN
    obtain ⟨sM, hM⟩ := h₁.readable.derived
    have hacross {K : List ModerationEvent} {sK : ModerationState}
        (hK : deriveModerationUnder chan (extendedBy L (longer L R)) K = .ok sK) :
        deriveModerationUnder chan (extendedBy R (longer L R)) K = .ok sK := by
      refine deriveModerationUnder_of_ids hU hL' hR' hL'U hR'U ?_ hK
      rw [map_extendedBy hpreL, map_extendedBy hpreR]
      exact List.Subset.refl _
    rw [hresponds]
    refine ⟨_, rfl, fun given => ?_⟩
    obtain ⟨dir₀', d₂, dir₂, hthere₀, hhears, h₂, hbeside₂, hsame₂⟩ :=
      h.hears_policy hU hLU hRU hrelated given
    obtain rfl : dir₀' = dir₀ := Option.some.inj (hthere₀.symm.trans h₀.there)
    rw [hhears]
    have hagreed {d' : Datadir} (hd' : readPolicyHistory chan d' =
        .ok (extendedBy L (longer L R))) : PolicyAgreed chan L R d' d₂ :=
      have hagrees := agrees_longer hU hL hpR hLU hRU hrelated
      ⟨hd', h₂.policyHistory, hagrees.1, hagrees.2, pX, hX, hL', hR'⟩
    by_cases hrelatedM : Related ModerationEvent.id M N
    · obtain ⟨sX, hMX, -, hagreesM, hagreesN⟩ :=
        deriveModeration_longer hU hM hN' hMU hNU hrelatedM
      obtain ⟨rest, res, d', dir', hafter, hd'⟩ := afterPolicy_related ambient h₁ hmoderation hN'
        hrelatedM
        fun hpre => deriveModeration_exchange hU hM hN' hMU hNU (idPrefix_iff.1 hpre)
      rw [hafter]
      refine ⟨rfl, hagreed hd'.policyHistory, fun h => absurd hrelatedM h, fun _ =>
        ⟨rest, rfl, fun given' => ?_⟩⟩
      obtain ⟨hpreM, hpreN⟩ := hrelatedM.idPrefix_longer
      obtain ⟨sX', hMX', hNX', -⟩ :=
        deriveModeration_longer hU (hacross hM) (hacross hN') hMU hNU hrelatedM
      obtain rfl : sX = sX' := Except.ok.inj ((hacross hMX).symm.trans hMX')
      obtain ⟨d₃, dir₃, hhears', h₃⟩ := Initiator.solo_moderationUpdate identity 0
        given' h₂ hMX'
        (idPrefix_of_ids hpreN (map_extendedBy hpreM)) (by rwa [extendedBy_extendedBy])
      rw [extendedBy_extendedBy] at h₃
      rw [hears, hhears']
      exact ⟨rfl, hd'.moderationHistory, h₃.moderationHistory, hagreesM, hagreesN, sX, hMX, hNX'⟩
    · obtain ⟨d', e, hafter, hthere', hsaved⟩ := afterPolicy_fork ambient h₁ hmoderation hN'
        hrelatedM
      rw [hafter]
      have hd' := h₁.same ⟨⟨rfl, rfl, rfl⟩, rfl⟩ hthere'
      refine ⟨rfl, hagreed hd'.policyHistory, fun _ => ⟨rfl, ⟨e, rfl⟩, ?_, ?_, hsaved, ?_⟩,
        fun h => absurd h hrelatedM⟩
      · exact ⟨_, _, hR.there, hthere', hbeside⟩
      · exact fun hlength => ⟨_, _, hR.there, hthere', hsame hlength.ge⟩
      · intro given'
        obtain ⟨d₃, e', hhears', hthere₃, hsaved'⟩ := Initiator.solo_moderationConflict
          identity 0 given' h₂ (hacross hM) (not_related hrelatedM).1
        rw [hears, hhears']
        refine ⟨⟨e', rfl⟩, ⟨_, _, h₀.there, hthere₃, hbeside₂⟩, fun hlength => ?_, hsaved'⟩
        exact ⟨_, _, h₀.there, hthere₃, hsame₂ hlength⟩

end Reconciliation

/-! ### One event in two spellings -/

section Spellings

open Simulated

attribute [local instance] simulated

/-- A channel with a signed policy history, and moderated. -/
noncomputable def historyDir (P : List PolicyEvent) (M : List ModerationEvent) : Dir :=
  { newDir with
    policyLog := some (policyCodec.records P)
    moderationLog := some (moderationCodec.records M) }

/-- A node with an identity, which has it. -/
noncomputable def historyNode (P : List PolicyEvent) (M : List ModerationEvent) : Datadir :=
  ({ identity := .value (identity 3) } : Datadir).put general.fullName (historyDir P M)

/-- The same with the channel's index written. -/
noncomputable def readyHistoryNode (P : List PolicyEvent) (M : List ModerationEvent) : Datadir :=
  (historyNode P M).put general.fullName ((historyDir P M).indexed [])

variable {P L R : List PolicyEvent} {M N : List ModerationEvent}

/-- The node holds these two histories. -/
theorem holds_historyNode {policy : ChannelPolicy} {state : ModerationState}
    (hP : derivePolicy general P = .ok policy)
    (hM : deriveModerationUnder general P M = .ok state) :
    Holds general (historyDir P M) P M (historyNode P M) := by
  refine ⟨getElem?_put_self _ _ _, ⟨_, rfl⟩,
    readable_iff.2 ⟨⟨?_, policy, hP⟩, ?_, ⟨state, hM⟩, ?_, ?_⟩⟩
  · exact Ndjson.parse_records policyCodec P
  · exact Ndjson.parse_records moderationCodec M
  · exact policyCodec.terminated_records P
  · exact moderationCodec.terminated_records M

/-- It holds them also with the index written. -/
theorem holds_readyHistoryNode {policy : ChannelPolicy} {state : ModerationState}
    (hP : derivePolicy general P = .ok policy)
    (hM : deriveModerationUnder general P M = .ok state) :
    Holds general ((historyDir P M).indexed []) P M (readyHistoryNode P M) :=
  (holds_historyNode hP hM).same ⟨⟨rfl, rfl, rfl⟩, rfl⟩ (getElem?_put_self _ _ _)

/-- An empty log has no bucket to tell of. -/
theorem chunkSummaries_historyNode (P : List PolicyEvent) (M : List ModerationEvent) :
    (chunkSummaries general).exec (historyNode P M) = (.ok [], readyHistoryNode P M) := by
  have hdir : (historyNode P M).channels[general.fullName]? = some (historyDir P M) :=
    getElem?_put_self _ _ _
  have hsummaries : (chunkSummaries general).exec (historyNode P M) =
      (indexSummaries (indexOf [] 0), readyHistoryNode P M) :=
    readIndexed_exec hdir rfl LogOk.empty
  have hnone : (indexOf [] 0).chunkMembers.toList = [] := by
    refine List.eq_nil_iff_forall_not_mem.2 fun entry hentry => ?_
    have hmem := Std.ExtTreeMap.mem_toList_iff_getElem?_eq_some.1 hentry
    simp [indexOf, getElem?_chunkTable, bucket] at hmem
  rw [hsummaries, indexSummaries_indexOf, hnone]
  rfl

/-- The packet of that node, for the challenge. -/
def statusOf (P : List PolicyEvent) (M : List ModerationEvent) : StatusMessage where
  msgType := "status"
  version := syncVersion
  channel := general.fullName
  requester := (identity 3).publicKey
  authTs := 0
  authSig := signatureOf 3
    (syncAuthPayload 0 general.fullName welcome.nonce welcome.responder)
  policyEvents := P
  moderationEvents := M
  chunks := []

/-- The responder takes it at the epoch. -/
def epoch : Ambient := ⟨0, 0, fun _ => [], sortedOrder, sortedOrder⟩

/-- A packet of no more events than are allowed is taken. -/
theorem checkStatus_statusOf {policy : ChannelPolicy} (hlength : P.length ≤ maxPolicyEvents)
    (hlengthM : M.length ≤ maxModerationEvents) (hP : derivePolicy general P = .ok policy) :
    Responder.checkStatus welcome (statusOf P M) 0 0 = .ok general := by
  have htime : ¬ ((0 : Int64) - 0).abs > 60 := by decide
  simp only [Responder.checkStatus, bind_eq_ok, bailIf_eq_ok, context_eq_ok, pure_eq_ok]
  exact ⟨(), by simp [statusOf], (), by simpa [statusOf] using hlength,
    (), by simpa [statusOf] using hlengthM, (), by simp [statusOf], general, ChannelRef.parse_fullName general, (), htime, (),
    by simp [welcome], (), verifyBytes_signatureOf 3 _, policy, hP, rfl⟩

/-- **Two nodes that meet**, where the policies admit the requester. -/
theorem meeting_historyNodes {pL pR : ChannelPolicy} {sM sN : ModerationState}
    (hL : derivePolicy general L = .ok pL) (hM : deriveModerationUnder general L M = .ok sM)
    (hR : derivePolicy general R = .ok pR) (hN : deriveModerationUnder general R N = .ok sN)
    (hlength : R.length ≤ maxPolicyEvents) (hlengthN : N.length ≤ maxModerationEvents)
    (hpL : policyAllowsRead pL (identity 3).publicKey = true)
    (hpR : policyAllowsRead pR (identity 3).publicKey = true) :
    Meeting general (identity 3) welcome (statusOf R N) epoch L R M N (historyNode L M)
      (historyNode R N) (readyHistoryNode R N) where
  responder := ⟨_, holds_historyNode hL hM⟩
  initiator := ⟨_, holds_historyNode hR hN⟩
  asked := by
    have hready := holds_readyHistoryNode hR hN
    have hidentity : context "load identity for synchronization"
        (loadIdentity (readyHistoryNode R N)) = .ok (identity 3) := rfl
    have hread : Initiator.readChallenge (.text (Frame.challenge welcome).decoded) = .ok welcome :=
      rfl
    refine ⟨0, [], [], R, N, unpinned, ?_, ?_⟩
    · rw [Initiator.start, solo_except_bind (ChannelRef.parse_fullName general),
        solo_call_bind (chunkSummaries_historyNode R N), solo_ask_bind hready.policyHistory,
        solo_ask_bind hready.moderationHistory, solo_ask_bind hidentity, solo_pure]
    · have hanswer : Initiator.answerChallenge general [] R N (identity 3) 0 welcome unpinned =
          .ok (statusOf R N) :=
        Initiator.answerChallenge_ok.2 ⟨none, _, rfl, verify_welcome, signBytes_identity 3 _, rfl⟩
      rw [Initiator.resume, solo_except_bind hread, solo_except_bind hanswer,
        solo_emit_bind, solo_pure]
  taken := checkStatus_statusOf hlength hlengthN hR
  member := by
    have hthere : (historyNode L M).channels[general.fullName]? = some (historyDir L M) :=
      getElem?_put_self _ _ _
    have hsome : (historyDir L M).policyLog.isSome = true := rfl
    refine ⟨pL, ?_, hpL⟩
    rw [readChannelPolicy_of_getElem? hthere, readDirPolicy, if_pos hsome,
      (holds_historyNode hL hM).policyLog]
    exact hL
  again := fun _ _ policy hpolicy => by
    obtain rfl := Except.ok.inj (hR.symm.trans hpolicy)
    exact hpR

/-- The owner restricts the channel, and one node has the signature in
upper case. -/
theorem meeting_respelled :
    Meeting general (identity 3) welcome (statusOf [(restrictedAt 0).upper] []) epoch
      [restrictedAt 0] [(restrictedAt 0).upper] [] [] (historyNode [restrictedAt 0] [])
      (historyNode [(restrictedAt 0).upper] []) (readyHistoryNode [(restrictedAt 0).upper] []) :=
  meeting_historyNodes (derivePolicy_restrictedAt 0) deriveModerationUnder_nil
    (derivePolicy_upper 0) deriveModerationUnder_nil (by decide) (by decide) rfl rfl

/-- The two spellings have one id. -/
theorem related_respelled :
    Related PolicyEvent.id [restrictedAt 0] [(restrictedAt 0).upper] := by
  have hid : (restrictedAt 0).upper.id = (restrictedAt 0).id := rfl
  refine .inl (idPrefix_of_map_eq ?_)
  rw [List.map_singleton, List.map_singleton, hid]

/-- And one payload, since it has no signature in it. -/
theorem payloads_respelled :
    policyPayloads [restrictedAt 0] ⊆ {(restrictedAt 0).payload.compact} ∧
      policyPayloads [(restrictedAt 0).upper] ⊆ {(restrictedAt 0).payload.compact} := by
  have hpayload (e : PolicyEvent) : e.upper.payload = e.payload := rfl
  constructor
  · rintro b ⟨e, he, rfl⟩
    rw [List.mem_singleton.1 he, Set.mem_singleton_iff]
  · rintro b ⟨e, he, rfl⟩
    rw [List.mem_singleton.1 he, hpayload, Set.mem_singleton_iff]

/-- **Each node keeps its own spelling**: the responder sends its history,
the initiator takes it in, and the two still differ. -/
theorem spellings_kept :
    ∃ status L R d₀ dR dI rest,
      Meeting general (identity 3) welcome status epoch L R [] [] dR d₀ dI ∧
      Related PolicyEvent.id L R ∧
      (responds welcome status epoch dR).1 = .policySync ⟨"policy_sync", "update", L⟩ :: rest ∧
      let i := hears general (identity 3) unpinned (.policySync ⟨"policy_sync", "update", L⟩) dI
      i.2.1 = .ok (.frames general (identity 3) 0) ∧
        readPolicyHistory general (responds welcome status epoch dR).2.2 = .ok L ∧
        readPolicyHistory general i.2.2 = .ok R ∧ L ≠ R := by
  have hmeet := meeting_respelled
  have hrelated := related_respelled
  have hU := Set.injOn_singleton blake3 (restrictedAt 0).payload.compact
  obtain ⟨hL, hR⟩ := payloads_respelled
  have hlonger : longer [restrictedAt 0] [(restrictedAt 0).upper] = [restrictedAt 0] := rfl
  obtain ⟨-, d₁, dir₁, -, hresponds, h₁, -⟩ := hmeet.responds_related hU hL hR hrelated
  obtain ⟨-, d₂, dir₂, -, hhears, h₂, -⟩ := hmeet.hears_policy hU hL hR hrelated unpinned
  rw [hlonger, extendedBy_of_length_le le_rfl] at hresponds hhears h₁
  rw [hlonger, extendedBy_of_length_le (by simp)] at h₂
  have hstatus : (statusOf [(restrictedAt 0).upper] []).moderationEvents = [] := rfl
  have hstate : deriveModerationUnder general [restrictedAt 0] [] = .ok {} := rfl
  obtain ⟨rest, r, d', dir', hafter, h'⟩ :=
    afterPolicy_related epoch h₁ hstatus hstate (.inl rfl) fun _ => hstate
  refine ⟨_, _, _, _, _, _, _, hmeet, hrelated, congrArg Prod.fst hresponds, ?_⟩
  rw [hresponds, hhears, hafter]
  exact ⟨rfl, h'.policyHistory, h₂.policyHistory, fun h => upper_ne (List.singleton_inj.1 h).symm⟩

end Spellings

/-! ### Three meetings -/

section Meetings

open Simulated

attribute [local instance] simulated

/-- What the nodes of the three meetings hash. -/
def metPayloads : List Bytes := (tombstoneAt 1).payload.compact :: hashedPayloads

/-- No two of them have one hash. -/
theorem hash_injOn_metPayloads : Set.InjOn blake3 {b | b ∈ metPayloads} := by
  have happart : ∀ b ∈ metPayloads, ∀ b' ∈ metPayloads,
      Simulated.hash b = Simulated.hash b' → b = b' := by
    decide +kernel
  exact fun b hb b' hb' => happart b hb b' hb'

/-- The two policy histories are among it. -/
theorem policyPayloads_met (n : UInt8) (hn : n = 2 ∨ n = 3) :
    policyPayloads (writerAdded n) ⊆ {b | b ∈ metPayloads} := by
  rintro b ⟨e, he, rfl⟩
  refine List.mem_cons_of_mem _ (List.mem_append_left _ (List.mem_map_of_mem ?_))
  rcases hn with rfl | rfl
  · exact List.mem_append_left _ he
  · exact List.mem_append_right _ he

/-- The event that both histories begin with. -/
theorem policyPayloads_met_restrictedAt :
    policyPayloads [restrictedAt 0] ⊆ {b | b ∈ metPayloads} := by
  rintro b ⟨e, he, rfl⟩
  refine policyPayloads_met 2 (.inl rfl) ⟨e, ?_, rfl⟩
  rw [List.mem_singleton.1 he]
  exact List.mem_cons_self

/-- Both tombstones are among it. -/
theorem moderationPayloads_met (ts : Int64) (hts : ts = 0 ∨ ts = 1) :
    moderationPayloads [tombstoneAt ts] ⊆ {b | b ∈ metPayloads} := by
  rintro b ⟨e, he, rfl⟩
  rw [List.mem_singleton.1 he]
  rcases hts with rfl | rfl
  · exact List.mem_cons_of_mem _ (List.mem_append_right _ (List.mem_singleton_self _))
  · exact List.mem_cons_self

/-- Without events nothing is hashed. -/
theorem moderationPayloads_met_nil : moderationPayloads [] ⊆ {b | b ∈ metPayloads} := by
  rintro b ⟨e, he, -⟩
  cases he

/-- Two writers are let in under one event. -/
theorem not_related_writerAdded :
    ¬ Related PolicyEvent.id (writerAdded 2) (writerAdded 3) := by
  rw [Related, idPrefix_iff, idPrefix_iff]
  decide +kernel

/-- Two tombstones are the first. -/
theorem not_related_tombstoneAt :
    ¬ Related ModerationEvent.id [tombstoneAt 0] [tombstoneAt 1] := by
  rw [Related, idPrefix_iff, idPrefix_iff]
  decide +kernel

/-- The shorter policy history begins the longer. -/
theorem related_writerAdded : Related PolicyEvent.id [restrictedAt 0] (writerAdded 2) :=
  .inl (idPrefix_iff.2 rfl)

/-- An empty moderation history begins every other. -/
theorem related_nil (M : List ModerationEvent) : Related ModerationEvent.id M [] :=
  .inr (idPrefix_iff.2 rfl)

/-- The responder has the first event of the initiator's policy, and each a
moderation under it. -/
theorem meeting_extended {M N : List ModerationEvent} {sM sN : ModerationState}
    (hM : deriveModerationUnder general [restrictedAt 0] M = .ok sM)
    (hN : deriveModerationUnder general (writerAdded 2) N = .ok sN)
    (hlength : N.length ≤ maxModerationEvents) :
    Meeting general (identity 3) welcome (statusOf (writerAdded 2) N) epoch [restrictedAt 0]
      (writerAdded 2) M N (historyNode [restrictedAt 0] M) (historyNode (writerAdded 2) N)
      (readyHistoryNode (writerAdded 2) N) :=
  meeting_historyNodes (derivePolicy_restrictedAt 0) hM (derivePolicy_writerAdded 2) hN
    (by decide) hlength rfl rfl

/-- The law for three meetings: of two whose policies fork after one event,
of two of which one has more policy and the other more moderation, and of
two whose moderations fork under policies of which one begins the other. -/
theorem reconciliation_trichotomy_met :
    (∃ status L R M N dR d₀ dI, Meeting general (identity 3) welcome status epoch L R M N dR d₀ dI ∧
      ¬ Related PolicyEvent.id L R ∧ Aborted general dR (responds welcome status epoch dR) ∧
      SavedPolicy general R (responds welcome status epoch dR).2.2 ∧
      let i := hears general (identity 3) unpinned
        (.policySync ⟨"policy_sync", "conflict", L⟩) dI
      Aborted general d₀ i ∧ SavedPolicy general L i.2.2) ∧
    (∃ status L R M N dR d₀ dI dI' dI'',
      Meeting general (identity 3) welcome status epoch L R M N dR d₀ dI ∧
      L.length < R.length ∧ N.length < M.length ∧
      PolicyAgreed general L R (responds welcome status epoch dR).2.2 dI' ∧
      ModerationAgreed general L R M N (responds welcome status epoch dR).2.2 dI'') ∧
    (∃ status L R M N dR d₀ dI dI' dI'',
      Meeting general (identity 3) welcome status epoch L R M N dR d₀ dI ∧ L.length < R.length ∧
      ¬ Related ModerationEvent.id M N ∧
      PolicyAgreed general L R (responds welcome status epoch dR).2.2 dI' ∧
      SavedModeration general N (responds welcome status epoch dR).2.2 ∧
      SavedModeration general M dI'') := by
  obtain ⟨sM, hM⟩ := exists_state_tombstoneAt 0
  obtain ⟨sN, hN⟩ := exists_state_writerAdded 2 1
  have hforked := meeting_historyNodes (derivePolicy_writerAdded 2) deriveModerationUnder_nil
    (derivePolicy_writerAdded 3) deriveModerationUnder_nil (by decide) (by decide) rfl rfl
  have hextended := meeting_extended hM deriveModerationUnder_nil (by decide)
  have hmoderated := meeting_extended hM hN (by decide)
  have hfork := (reconciliation_trichotomy hforked hash_injOn_metPayloads
    (policyPayloads_met 2 (.inl rfl)) (policyPayloads_met 3 (.inr rfl)) moderationPayloads_met_nil
    moderationPayloads_met_nil).1 not_related_writerAdded
  obtain ⟨_, -, hupdate⟩ := (reconciliation_trichotomy hextended hash_injOn_metPayloads
    policyPayloads_met_restrictedAt (policyPayloads_met 2 (.inl rfl))
    (moderationPayloads_met 0 (.inl rfl)) moderationPayloads_met_nil).2 related_writerAdded
  obtain ⟨_, -, hheard⟩ := (hupdate unpinned).2.2.2 (related_nil _)
  obtain ⟨_, -, hupdate'⟩ := (reconciliation_trichotomy hmoderated hash_injOn_metPayloads
    policyPayloads_met_restrictedAt (policyPayloads_met 2 (.inl rfl))
    (moderationPayloads_met 0 (.inl rfl)) (moderationPayloads_met 1 (.inr rfl))).2
    related_writerAdded
  obtain ⟨-, -, -, -, hsaved, hheard'⟩ := (hupdate' unpinned).2.2.1 not_related_tombstoneAt
  obtain ⟨-, haborted, hsavedPolicy, hconflict⟩ := hfork
  refine ⟨⟨_, _, _, _, _, _, _, _, hforked, not_related_writerAdded, haborted, hsavedPolicy,
    hconflict unpinned⟩, ?_, ?_⟩
  · exact ⟨_, _, _, _, _, _, _, _, _, _, hextended, by decide, by decide,
      (hupdate unpinned).2.1, (hheard unpinned).2⟩
  · exact ⟨_, _, _, _, _, _, _, _, _, _, hmoderated, by decide, not_related_tombstoneAt,
      (hupdate' unpinned).2.1, hsaved, (hheard' unpinned).2.2.2⟩

end Meetings

end Embernet
