import Embernet.Log.Append
import Embernet.Moderation.Citation
import Embernet.Store.Histories
/-!
# Readable histories — moderation under a policy that moves

The moderation history is judged by the policy history each time it is
read, and the two files are written by different operations. Appending to
either keeps the pair accepted. Putting a saved fork in the policy
history's place does where the fork has every head that the moderation
cites, and only there.
-/

set_option autoImplicit false

namespace Embernet

open Primitives

section Readable

variable [Primitives] {chan : ChannelRef} {files files' : HistoryFiles} {d d' : Datadir}
  {P Q : List PolicyEvent} {M N : List ModerationEvent} {op : StoreOp} {U : Set Bytes}
  {policy : ChannelPolicy} {state : ModerationState}

/-! ## Moderation histories that begin alike -/

/-- The bytes that the ids of a moderation history hash. -/
def moderationPayloads (M : List ModerationEvent) : Set Bytes :=
  {b | ∃ e ∈ M, b = e.payload.compact}

/-- Two events that a history may exchange. -/
def ModerationEvent.Agrees (a b : ModerationEvent) : Prop := a.id = b.id ∧ a.payload = b.payload

theorem deriveModerationStep_agrees (chan : ChannelRef) (P : List PolicyEvent)
    ⦃s : ModerationCursor⦄ ⦃a b : ModerationEvent⦄ ⦃t t' : ModerationCursor⦄ (hab : a.Agrees b)
    (ha : deriveModerationStep chan P s a = .ok t)
    (hb : deriveModerationStep chan P s b = .ok t') : t = t' := by
  obtain ⟨-, -, -, -, -, happly, hprev⟩ := deriveModerationStep_ok.1 ha
  obtain ⟨-, -, -, -, -, happly', hprev'⟩ := deriveModerationStep_ok.1 hb
  obtain ⟨-, -, -, -, -, haction⟩ := moderationEventPayload_inj.1 hab.2
  rw [haction, happly'] at happly
  obtain ⟨moderation, previous⟩ := t
  obtain ⟨moderation', previous'⟩ := t'
  simp only at hprev hprev' happly
  rw [hprev, hprev', hab.1, Except.ok.inj happly]

/-- Every event of a history that derives carries its payload's id. -/
theorem computedId_of_deriveModeration (h : deriveModerationUnder chan P M = .ok state)
    {e : ModerationEvent} (he : e ∈ M) : e.id = e.computedId := by
  obtain ⟨s, hs, -⟩ := deriveModerationUnder_ok.1 h
  obtain ⟨i, hi, rfl⟩ := List.getElem_of_mem he
  obtain ⟨t, t', -, hstep, -⟩ := Replay.step_of_replay hs hi
  exact (deriveModerationStep_ok.1 hstep).2.2.2.1

/-- Moderation events of one id agree. -/
theorem moderation_agrees_of_ids (hU : Set.InjOn blake3 U)
    (hM : deriveModerationUnder chan P M = .ok state) {state' : ModerationState}
    (hN : deriveModerationUnder chan Q N = .ok state') (hMU : moderationPayloads M ⊆ U)
    (hNU : moderationPayloads N ⊆ U) {xs ys : List ModerationEvent} (hx : xs ⊆ M) (hy : ys ⊆ N)
    (h : xs.map ModerationEvent.id = ys.map ModerationEvent.id) :
    List.Forall₂ ModerationEvent.Agrees xs ys := by
  rw [← List.forall₂_eq_eq_eq, List.forall₂_map_left_iff, List.forall₂_map_right_iff,
    List.forall₂_iff_zip] at h
  refine List.forall₂_iff_zip.2 ⟨h.1, fun {a b} hab => ⟨h.2 hab, ?_⟩⟩
  obtain ⟨ha, hb⟩ := List.of_mem_zip hab
  have hid := h.2 hab
  rw [computedId_of_deriveModeration hM (hx ha), computedId_of_deriveModeration hN (hy hb)] at hid
  exact Json.compact_injective
    (hashHex_inj_on hU (hMU ⟨a, hx ha, rfl⟩) (hNU ⟨b, hy hb, rfl⟩) hid)

/-- **A moderation history may be taken in behind another** whose ids it
begins with. -/
theorem deriveModeration_exchange (hU : Set.InjOn blake3 U)
    (hM : deriveModerationUnder chan P M = .ok state) {state' : ModerationState}
    (hN : deriveModerationUnder chan P N = .ok state') (hMU : moderationPayloads M ⊆ U)
    (hNU : moderationPayloads N ⊆ U)
    (h : M.map ModerationEvent.id = (N.take M.length).map ModerationEvent.id) :
    deriveModerationUnder chan P (M ++ N.drop M.length) = .ok state' := by
  have hagree : List.Forall₂ ModerationEvent.Agrees M (N.take M.length) :=
    moderation_agrees_of_ids hU hM hN hMU hNU (List.Subset.refl _) (List.take_subset _ _) h
  obtain ⟨s, hs, -⟩ := deriveModerationUnder_ok.1 hM
  obtain ⟨t, ht, rfl⟩ := deriveModerationUnder_ok.1 hN
  exact deriveModerationUnder_ok.2
    ⟨t, Replay.replay_exchange (deriveModerationStep_agrees chan P) hagree hs ht, rfl⟩

omit [Primitives] in
theorem idPrefix_iff {α : Type} {id : α → String} {xs ys : List α} :
    idPrefix id xs ys = true ↔ xs.map id = (ys.take xs.length).map id := by
  induction xs generalizing ys with
  | nil => simp [idPrefix]
  | cons x xs ih =>
    cases ys with
    | nil => simp [idPrefix]
    | cons y ys =>
      have := @ih ys
      simp only [idPrefix, Bool.and_eq_true, decide_eq_true_eq] at this
      simp only [idPrefix, List.length_cons, List.zip_cons_cons, List.all_cons, Bool.and_eq_true,
        decide_eq_true_eq, beq_iff_eq, List.take_succ_cons, List.map_cons, List.cons.injEq,
        ← this]
      constructor
      · rintro ⟨hle, hid, hall⟩
        exact ⟨hid, by omega, hall⟩
      · rintro ⟨hid, hle, hall⟩
        exact ⟨by omega, hid, hall⟩

/-! ## The invariant -/

/-- The two histories in the files, each file closed, the moderation
accepted under the policy. -/
structure Readable (chan : ChannelRef) (files : HistoryFiles) (P : List PolicyEvent)
    (M : List ModerationEvent) : Prop extends HasModeration chan files P M where
  policyClosed : Ndjson.Terminated (files.policyLog.getD [])
  moderationClosed : Ndjson.Terminated (files.moderationLog.getD [])

/-- What the invariant says of the bytes. -/
theorem readable_iff : Readable chan files P M ↔
    (Ndjson.parse readPolicyEvent (files.policyLog.getD []) = .ok P ∧
      ∃ policy, derivePolicy chan P = .ok policy) ∧
    Ndjson.parse readModerationEvent (files.moderationLog.getD []) = .ok M ∧
    (∃ state, deriveModerationUnder chan P M = .ok state) ∧
    Ndjson.Terminated (files.policyLog.getD []) ∧
    Ndjson.Terminated (files.moderationLog.getD []) := by
  constructor
  · rintro ⟨⟨hP, hM, hderived⟩, hp, hm⟩
    exact ⟨readPolicyLog_ok.1 hP, parseHistory_ok.1 hM, hderived, hp, hm⟩
  · rintro ⟨hP, hM, hderived, hp, hm⟩
    exact ⟨⟨readPolicyLog_ok.2 hP, parseHistory_ok.2 hM, hderived⟩, hp, hm⟩

omit [Primitives] in
/-- Appending to a file of records. -/
theorem append_records {α : Type} (C : Ndjson.Codec α) {file : Option Bytes} {as : List α}
    (hclosed : Ndjson.Terminated (file.getD [])) (hfile : Ndjson.parse C.read (file.getD []) = .ok as)
    (bs : List α) :
    let file' := if bs.isEmpty then file else some (file.getD [] ++ C.records bs)
    Ndjson.parse C.read (file'.getD []) = .ok (as ++ bs) ∧ Ndjson.Terminated (file'.getD []) := by
  cases bs with
  | nil => simpa using ⟨hfile, hclosed⟩
  | cons b bs =>
    exact ⟨Ndjson.parse_append C hclosed hfile _,
      Ndjson.terminated_append hclosed (C.terminated_records _)⟩

/-- **More policy events** keep the histories readable. -/
theorem Readable.policyAppended (h : Readable chan files P M)
    (hQ : derivePolicy chan (P ++ Q) = .ok policy) (written : ChannelPolicy) :
    Readable chan (appendPolicyRecords Q written files.dir).histories (P ++ Q) M := by
  obtain ⟨⟨hP, -⟩, hM, ⟨state, hstate⟩, hp, hm⟩ := readable_iff.1 h
  obtain ⟨hparse, hclosed⟩ := append_records policyCodec hp hP Q
  exact readable_iff.2 ⟨⟨hparse, policy, hQ⟩, hM, ⟨state, deriveModerationUnder_append hstate Q⟩,
    hclosed, hm⟩

/-- **More moderation events** that are accepted with those before them
do. -/
theorem Readable.moderationAppended (h : Readable chan files P M)
    (hN : deriveModerationUnder chan P (M ++ N) = .ok state) (written : ModerationState) :
    Readable chan (appendModerationRecords N written files.dir).histories P (M ++ N) := by
  obtain ⟨hP, hM, -, hp, hm⟩ := readable_iff.1 h
  obtain ⟨hparse, hclosed⟩ := append_records moderationCodec hm hM N
  exact readable_iff.2 ⟨hP, hparse, ⟨state, hN⟩, hp, hclosed⟩

/-- **A fork in the policy history's place** does, exactly where it has
every head that the moderation cites. -/
theorem Readable.policyReplaced (h : Readable chan files P M) (hU : Set.InjOn blake3 U)
    (hPU : policyPayloads P ⊆ U) (hQU : policyPayloads Q ⊆ U)
    (hQ : derivePolicy chan Q = .ok policy) (written : ChannelPolicy) :
    (∃ N, Readable chan { files with
        policyLog := some (policyCodec.records Q), policyJson := .value written } Q N) ↔
      ∀ e ∈ M, e.policyHead ∈ Q.map PolicyEvent.id := by
  obtain ⟨⟨-, policy₀, hP⟩, hM, ⟨state, hstate⟩, hp, hm⟩ := readable_iff.1 h
  constructor
  · rintro ⟨N, hN⟩ e he
    obtain ⟨-, hN, ⟨state', hstate'⟩, -⟩ := readable_iff.1 hN
    cases hM.symm.trans hN
    obtain ⟨position, cited, ⟨hposition, -⟩, -⟩ := citedPolicy_of_mem hstate' he
    obtain ⟨hi, hid, -⟩ := List.findIdx?_eq_some_iff_getElem.1 hposition
    exact List.mem_map.2 ⟨_, List.getElem_mem hi, beq_iff_eq.1 hid⟩
  · intro hcited
    refine ⟨M, readable_iff.2 ⟨⟨Ndjson.parse_records policyCodec Q, policy, hQ⟩, hM, ⟨state, ?_⟩,
      policyCodec.terminated_records Q, hm⟩⟩
    exact deriveModerationUnder_of_cited
      (fun e he _ _ hat => hat.shared hU hP hQ hPU hQU (hcited e he)) hstate

/-! ## One operation -/

/-- The policy events an operation brings from elsewhere. -/
def StoreOp.submittedPolicy (chan : ChannelRef) (d : Datadir) : StoreOp → List PolicyEvent
  | .appendRemotePolicyHistory remote => remote
  | .resolvePolicyConflict head =>
    ((readSaved readPolicyEvent (policyConflictDir chan) head d).toOption).getD []
  | _ => []

/-- The moderation events it brings. -/
def StoreOp.submittedModeration : StoreOp → List ModerationEvent
  | .appendRemoteModerationHistory remote => remote
  | _ => []

/-- What the operation hashes and compares is in `U`: the histories there
are, and those it brings. -/
structure HashedIn (U : Set Bytes) (chan : ChannelRef) (d : Datadir) (op : StoreOp) : Prop where
  policy : ∀ P, readPolicyHistory chan d = .ok P → policyPayloads P ⊆ U
  moderation : ∀ M, readModerationHistory chan d = .ok M → moderationPayloads M ⊆ U
  submittedPolicy : policyPayloads (op.submittedPolicy chan d) ⊆ U
  submittedModeration : moderationPayloads op.submittedModeration ⊆ U

/-- What an operation compares is hashed, where the histories it finds are. -/
theorem HashedIn.of_reads
    (hread : readPolicyHistory chan d = .ok P ∧ readModerationHistory chan d = .ok M)
    (hP : policyPayloads P ⊆ U) (hM : moderationPayloads M ⊆ U)
    (hP' : policyPayloads (op.submittedPolicy chan d) ⊆ U)
    (hM' : moderationPayloads op.submittedModeration ⊆ U) : HashedIn U chan d op where
  policy P' h := by
    cases hread.1.symm.trans h
    exact hP
  moderation M' h := by
    cases hread.2.symm.trans h
    exact hM
  submittedPolicy := hP'
  submittedModeration := hM'

/-- **What a resolution must keep**: the fork that takes the policy
history's place has every head that the moderation cites. -/
def KeepsCited (chan : ChannelRef) (d : Datadir) : StoreOp → Prop
  | .resolvePolicyConflict head =>
    ∀ events M, (∃ opened, openLog chan d = .ok opened) →
      readSaved readPolicyEvent (policyConflictDir chan) head d = .ok events →
      events.getLast?.map PolicyEvent.id = some head →
      (∃ policy, derivePolicy chan events = .ok policy) →
      readModerationHistory chan d = .ok M → ∀ e ∈ M, e.policyHead ∈ events.map PolicyEvent.id
  | _ => True

/-- A channel whose histories are readable. -/
def ReadableChannel (chan : ChannelRef) (d : Datadir) : Prop :=
  ∃ files P M, HasHistories chan files d ∧ Readable chan files P M

theorem readHistories_of_readable (hfiles : HasHistories chan files d)
    (h : Readable chan files P M) :
    readPolicyHistory chan d = .ok P ∧ readModerationHistory chan d = .ok M := by
  obtain ⟨dir, hdir, rfl⟩ := hfiles
  refine ⟨(readPolicyHistory_of_getElem? hdir).trans h.policy, ?_⟩
  rw [readModerationHistory, Query.bind_apply, openDir_ok.2 hdir]
  exact (readModerationLog_ok hdir h.policy).2 h.toHasModeration

/-- **One operation keeps the histories readable**, unless it resolves to
a fork that lacks a head. -/
theorem readable_step (hU : Set.InjOn blake3 U) (h : ReadableChannel chan d)
    (hhashed : HashedIn U chan d op) (hkeeps : KeepsCited chan d op) :
    ReadableChannel chan (op.exec chan d) := by
  obtain ⟨files, P, M, ⟨dir, hdir, rfl⟩, hread⟩ := h
  obtain ⟨hP, hM⟩ := readHistories_of_readable ⟨dir, hdir, rfl⟩ hread
  have hPU := hhashed.policy P hP
  have hMU := hhashed.moderation M hM
  obtain ⟨policy, hpolicy⟩ := (readPolicyLog_ok.1 hread.policy).2
  obtain ⟨state, hstate⟩ := hread.derived
  obtain ⟨files, hchange, hafter⟩ := history_change op hdir
  suffices ∃ Q N, Readable chan files Q N from
    let ⟨Q, N, hQN⟩ := this
    ⟨files, Q, N, hafter, hQN⟩
  cases hchange with
  | unchanged => exact ⟨P, M, hread⟩
  | policyAction hcurrent _ _ hderived =>
    cases hread.policy.symm.trans hcurrent
    exact ⟨_, M, hread.policyAppended hderived _⟩
  | policyRemote hremote _ hcurrent hderived hpre =>
    subst hremote
    cases hread.policy.symm.trans hcurrent
    have hexchange := derivePolicy_exchange hU hpolicy hderived hPU hhashed.submittedPolicy
      (idPrefix_iff.1 hpre)
    exact ⟨_, M, hread.policyAppended hexchange _⟩
  | policyRebuilt => exact ⟨P, M, ⟨⟨hread.policy, hread.moderation, state, hstate⟩,
      hread.policyClosed, hread.moderationClosed⟩⟩
  | @policyResolved head events derived hresolve hopen hsaved hhead hderived =>
    subst hresolve
    have hQU : policyPayloads events ⊆ U := by
      have := hhashed.submittedPolicy
      rwa [StoreOp.submittedPolicy, hsaved] at this
    obtain ⟨N, hN⟩ := (hread.policyReplaced hU hPU hQU hderived derived).2
      (hkeeps events M hopen hsaved hhead ⟨derived, hderived⟩ hM)
    exact ⟨events, N, hN⟩
  | moderationAction hcurrent hderived =>
    cases hread.policy.symm.trans hcurrent.policy
    cases hread.moderation.symm.trans hcurrent.moderation
    exact ⟨P, _, hread.moderationAppended hderived _⟩
  | moderationRemote hremote hcurrent hderived hpre =>
    subst hremote
    cases hread.policy.symm.trans hcurrent.policy
    cases hread.moderation.symm.trans hcurrent.moderation
    have hexchange := deriveModeration_exchange hU hstate hderived hMU hhashed.submittedModeration
      (idPrefix_iff.1 hpre)
    exact ⟨P, _, hread.moderationAppended hexchange _⟩
  | @moderationResolved head P' events derived hresolve hcurrent hderived =>
    cases hread.policy.symm.trans hcurrent
    obtain ⟨hpolicyFile, -, -, hclosed, -⟩ := readable_iff.1 hread
    exact ⟨P, events, readable_iff.2 ⟨hpolicyFile, Ndjson.parse_records moderationCodec events,
      ⟨derived, hderived⟩, hclosed, moderationCodec.terminated_records events⟩⟩

/-! ## Every run -/

/-- A channel with no signed history and no moderation. -/
def EmptyHistories (chan : ChannelRef) (d : Datadir) : Prop :=
  ∃ policyJson, HasHistories chan ⟨none, policyJson, none⟩ d

theorem EmptyHistories.readable (h : EmptyHistories chan d) : ReadableChannel chan d := by
  obtain ⟨policyJson, hfiles⟩ := h
  exact ⟨_, [], [], hfiles, readable_iff.2
    ⟨⟨rfl, _, derivePolicy_nil⟩, rfl, ⟨_, deriveModerationUnder_nil⟩, Ndjson.terminated_nil,
      Ndjson.terminated_nil⟩⟩

/-- A tail is read once the moderation is. -/
theorem exec_readChannelTail {n : ℕ} (hstate : moderationState chan d = .ok state) (hn : n ≠ 0) :
    (readChannelTail chan n false).exec d =
      (readIndexed chan (tailOf chan (state.tombstoned.contains ·) n)).exec d := by
  rw [readChannelTail, if_neg hn]
  simp only [Bool.false_eq_true, if_false, Bool.not_false, Bool.true_and]
  rw [Op.exec_query_bind, hstate]

/-- **Moderation stays readable**, in every run from an empty channel in
which no resolution drops a head that the moderation cites: the
moderation history is accepted under the policy history, its state is
read, and a tail is read from there. -/
theorem moderation_readable {d₀ : Datadir} {ops : List StoreOp} (hU : Set.InjOn blake3 U)
    (hrun : Run (Under (fun d op => HashedIn U chan d op ∧ KeepsCited chan d op) (StoreStep chan))
      d₀ ops d) (h₀ : EmptyHistories chan d₀) :
    ∃ P M state, readPolicyHistory chan d = .ok P ∧ readModerationHistory chan d = .ok M ∧
      deriveModerationUnder chan P M = .ok state ∧ moderationState chan d = .ok state ∧
      ∀ n ≠ 0, (readChannelTail chan n false).exec d =
        (readIndexed chan (tailOf chan (state.tombstoned.contains ·) n)).exec d := by
  have hread : ReadableChannel chan d := by
    refine hrun.invariant ?_ h₀.readable
    rintro d op d' hd ⟨⟨hhashed, hkeeps⟩, rfl⟩
    exact readable_step hU hd hhashed hkeeps
  obtain ⟨files, P, M, hfiles, hPM⟩ := hread
  obtain ⟨hP, hM⟩ := readHistories_of_readable hfiles hPM
  obtain ⟨state, hderived⟩ := hPM.derived
  have hstate : moderationState chan d = .ok state := by
    rw [moderationState, Query.bind_apply, hM]
    change deriveModeration chan M d = _
    rw [deriveModeration, Query.bind_apply, hP]
    exact hderived
  exact ⟨P, M, state, hP, hM, hderived, hstate, fun n hn => exec_readChannelTail hstate hn⟩

end Readable

/-! ## A resolution that drops a head -/

section Dropped

variable [Primitives] {chan : ChannelRef} {d : Datadir} {dir : Dir} {log : Bytes}

/-- Taking in remote moderation. -/
theorem exec_appendRemoteModerationHistory {remote current : List ModerationEvent}
    {state : ModerationState} (hopen : openLog chan d = .ok (dir, log))
    (hcurrent : readModerationLog chan dir d = .ok current)
    (hstate : deriveModeration chan remote d = .ok state)
    (hpre : idPrefix ModerationEvent.id current remote = true) :
    (appendRemoteModerationHistory chan remote).exec d =
      (.ok state, d.put chan.fullName
        (appendModerationRecords (remote.drop current.length) state dir)) := by
  rw [appendRemoteModerationHistory, Op.exec_query_bind, hopen]
  simp only
  rw [Op.exec_query_bind, hcurrent]
  simp only
  rw [Op.exec_query_bind, hstate]
  simp only
  rw [Op.exec_bailIf_bind, if_neg (by simp [hpre]),
    Op.exec_bind_of_ok (exec_modifyDir (openLog_ok.1 hopen).1), Op.exec_pure]

/-- Saving a fork, which leaves the channel's own directory alone. -/
theorem exec_savePolicyConflict {events : List PolicyEvent} {e : PolicyEvent}
    {policy : ChannelPolicy} (hpolicy : derivePolicy chan events = .ok policy)
    (hlast : events.getLast? = some e) (hdir : d.channels[chan.fullName]? = some dir) :
    ∃ d', (savePolicyConflict chan events).exec d = (.ok e.id, d') ∧
      d'.channels[chan.fullName]? = some dir ∧
      (d'.channels[policyConflictDir chan]?.bind fun dir => dir.saved[e.id]?) =
        some (policyCodec.records events) := by
  set made := ((ensureDir (policyConflictDir chan)).exec d).2 with hmade
  have hensure : (ensureDir (policyConflictDir chan)).exec d = (.ok (), made) := rfl
  obtain ⟨conflicts, hconflicts⟩ : ∃ conflicts,
      made.channels[policyConflictDir chan]? = some conflicts := by
    rw [hmade, ensureDir, Op.exec_modify]
    simp only [getElem?_ensureDirs, self_mem_pathPrefixes, if_true]
    cases d.channels[policyConflictDir chan]? <;> simp
  have hchannel : made.channels[chan.fullName]? = some dir := by
    rw [hmade, ensureDir, Op.exec_modify]
    simp only [getElem?_ensureDirs, hdir, Option.some_or]
  have hexec : (savePolicyConflict chan events).exec d = (.ok e.id,
      made.put (policyConflictDir chan)
        { conflicts with saved := conflicts.saved.insert e.id (policyCodec.records events) }) := by
    rw [savePolicyConflict, Op.exec_except_bind, hpolicy]
    simp only
    rw [Op.exec_orBail_bind, hlast]
    simp only
    rw [Op.exec_bind_of_ok hensure, Op.exec_bind_of_ok (exec_modifyDir hconflicts), Op.exec_pure]
  refine ⟨_, hexec, ?_, ?_⟩
  · rw [getElem?_put_of_ne (policyConflictDir_ne chan)]
    exact hchannel
  · rw [getElem?_put_self]
    simp

/-- Putting a saved fork in the history's place. -/
theorem exec_resolvePolicyConflict {events current : List PolicyEvent} {e : PolicyEvent}
    {policy : ChannelPolicy}
    (hsaved : readSaved readPolicyEvent (policyConflictDir chan) e.id d = .ok events)
    (hlast : events.getLast? = some e) (hpolicy : derivePolicy chan events = .ok policy)
    (hopen : openLog chan d = .ok (dir, log)) (hcurrent : readPolicyLog chan dir = .ok current) :
    ∃ d', (resolvePolicyConflict chan e.id).exec d = (.ok policy, d') ∧
      d'.channels[chan.fullName]? = some { dir with
        policyLog := some (policyCodec.records events), policyJson := .value policy } := by
  have hdir := (openLog_ok.1 hopen).1
  have hid : validatePublicKey e.id = .ok () := by
    rw [(mem_of_derivePolicy hpolicy (List.mem_of_getLast? hlast)).2.1]
    simp [validatePublicKey, PolicyEvent.computedId, hashHex, bind_eq_ok, length_blake3]
  rw [resolvePolicyConflict, Op.exec_except_bind, hid]
  simp only [context]
  rw [Op.exec_query_bind, hsaved]
  simp only
  rw [Op.exec_bailIf_bind, if_neg (by simp [hlast]), Op.exec_except_bind, hpolicy]
  simp only
  rw [Op.exec_query_bind, hopen]
  simp only
  rw [Op.exec_except_bind, hcurrent]
  simp only
  split
  · rename_i hne
    obtain ⟨policy₀, hpolicy₀⟩ := (readPolicyLog_ok.1 hcurrent).2
    obtain ⟨saved, hsave, hsavedDir, -⟩ := exec_savePolicyConflict hpolicy₀
      (List.getLast?_eq_some_getLast hne.1) hdir
    rw [Op.exec_bind_of_ok hsave, Op.exec_bind_of_ok (exec_modifyDir hsavedDir), Op.exec_pure]
    exact ⟨_, rfl, getElem?_put_self _ _ _⟩
  · rw [Op.exec_bind_of_ok (exec_modifyDir hdir), Op.exec_pure]
    exact ⟨_, rfl, getElem?_put_self _ _ _⟩

/-- The channel's two history files hold these events. -/
def HoldsHistories (chan : ChannelRef) (d : Datadir) (P : List PolicyEvent)
    (M : List ModerationEvent) : Prop :=
  ∃ dir, d.channels[chan.fullName]? = some dir ∧
    dir.policyLog.getD [] = policyCodec.records P ∧
    dir.moderationLog.getD [] = moderationCodec.records M

/-- Histories that derive are read back. -/
theorem HoldsHistories.read {P : List PolicyEvent} {M : List ModerationEvent}
    (h : HoldsHistories chan d P M) (hP : ∃ policy, derivePolicy chan P = .ok policy)
    (hM : ∃ state, deriveModerationUnder chan P M = .ok state) :
    readPolicyHistory chan d = .ok P ∧ readModerationHistory chan d = .ok M := by
  obtain ⟨dir, hdir, hpolicyLog, hmoderationLog⟩ := h
  have hfiles : HasHistories chan dir.histories d := ⟨dir, hdir, rfl⟩
  refine readHistories_of_readable hfiles (readable_iff.2 ⟨⟨?_, hP⟩, ?_, hM, ?_, ?_⟩)
  · rw [Dir.histories, hpolicyLog]
    exact Ndjson.parse_records policyCodec P
  · rw [Dir.histories, hmoderationLog]
    exact Ndjson.parse_records moderationCodec M
  · rw [Dir.histories, hpolicyLog]
    exact policyCodec.terminated_records P
  · rw [Dir.histories, hmoderationLog]
    exact moderationCodec.terminated_records M

/-- Where the policy history lacks a head that the moderation cites, the
moderation is not read. -/
theorem HoldsHistories.unreadable {Q : List PolicyEvent} {M : List ModerationEvent}
    (h : HoldsHistories chan d Q M) (hQ : ∃ policy, derivePolicy chan Q = .ok policy)
    {e : ModerationEvent} (he : e ∈ M) (hhead : e.policyHead ∉ Q.map PolicyEvent.id)
    (state : ModerationState) : moderationState chan d ≠ .ok state := by
  intro hstate
  obtain ⟨dir, hdir, hpolicyLog, hmoderationLog⟩ := h
  have hP : readPolicyLog chan dir = .ok Q := by
    refine readPolicyLog_ok.2 ⟨?_, hQ⟩
    rw [hpolicyLog]
    exact Ndjson.parse_records policyCodec Q
  rw [moderationState, Query.bind_ok] at hstate
  obtain ⟨N, hN, -⟩ := hstate
  rw [readModerationHistory, Query.bind_apply, openDir_ok.2 hdir] at hN
  have hmoderation := (readModerationLog_ok hdir hP).1 hN
  have hparse := parseHistory_ok.1 hmoderation.moderation
  rw [Dir.histories, hmoderationLog] at hparse
  cases (Ndjson.parse_records moderationCodec M).symm.trans hparse
  obtain ⟨state', hstate'⟩ := hmoderation.derived
  obtain ⟨position, cited, ⟨hposition, -⟩, -⟩ := citedPolicy_of_mem hstate' he
  obtain ⟨hi, hid, -⟩ := List.findIdx?_eq_some_iff_getElem.1 hposition
  exact hhead (List.mem_map.2 ⟨_, List.getElem_mem hi, beq_iff_eq.1 hid⟩)

/-- A channel without histories takes in both, the policy first. -/
theorem exists_taken {P : List PolicyEvent} {M : List ModerationEvent} {policy : ChannelPolicy}
    {state : ModerationState} (hopen : openLog chan d = .ok (dir, log))
    (hpolicyLog : dir.policyLog = none) (hmoderationLog : dir.moderationLog = none)
    (hne : P ≠ []) (hneM : M ≠ []) (hP : derivePolicy chan P = .ok policy)
    (hM : deriveModerationUnder chan P M = .ok state) :
    ∃ dir₁ dir₂, (appendRemotePolicyHistory chan P).exec d =
        (.ok policy, d.put chan.fullName dir₁) ∧
      (appendRemoteModerationHistory chan M).exec (d.put chan.fullName dir₁) =
        (.ok state, d.put chan.fullName dir₂) ∧
      dir₁.policyLog = some (policyCodec.records P) ∧ dir₁.moderationLog = none ∧
      dir₂.policyLog = some (policyCodec.records P) ∧
      dir₂.moderationLog = some (moderationCodec.records M) ∧
      dir₂.log = some log ∧ dir₂.index = dir.index := by
  obtain ⟨-, hlog⟩ := openLog_ok.1 hopen
  have hnone : readPolicyLog chan dir = .ok [] := by
    rw [readPolicyLog, hpolicyLog]
    rfl
  have hexec₁ := exec_appendRemotePolicyHistory hopen hnone hP (by simp [idPrefix])
  rw [List.length_nil, List.drop_zero] at hexec₁
  obtain ⟨dir₁, hdef₁⟩ : ∃ dir₁, dir₁ = appendPolicyRecords P policy dir := ⟨_, rfl⟩
  rw [← hdef₁] at hexec₁
  have hdir₁ := getElem?_put_self d chan.fullName dir₁
  have hpolicyLog₁ : dir₁.policyLog = some (policyCodec.records P) := by
    simp [hdef₁, appendPolicyRecords, hne, hpolicyLog]
  have hmoderationLog₁ : dir₁.moderationLog = none := by
    rw [hdef₁]
    exact hmoderationLog
  have hlog₁ : dir₁.log = some log := by
    rw [hdef₁]
    exact hlog
  have hP₁ := readPolicyLog_records hpolicyLog₁ hP
  have hM₁ : readModerationLog chan dir₁ (d.put chan.fullName dir₁) = .ok [] := by
    rw [readModerationLog, hmoderationLog₁]
    rfl
  have hexec₂ := exec_appendRemoteModerationHistory (openLog_ok.2 ⟨hdir₁, hlog₁⟩) hM₁
    ((deriveModeration_ok hdir₁).2 ⟨P, hP₁, hM⟩) (by simp [idPrefix])
  rw [List.length_nil, List.drop_zero, put_put] at hexec₂
  refine ⟨dir₁, _, hexec₁, hexec₂, hpolicyLog₁, hmoderationLog₁, hpolicyLog₁, ?_, hlog₁, ?_⟩
  · simp [appendModerationRecords, hneM, hmoderationLog₁]
  · rw [hdef₁]
    rfl

/-- **A resolution**: a node takes in a history and a moderation under it,
saves another history, and resolves to it. The moderation stays as it
was. -/
theorem exists_resolution {P Q : List PolicyEvent} {M : List ModerationEvent}
    {last : PolicyEvent} {policy policy' : ChannelPolicy} {state : ModerationState}
    (hopen : openLog chan d = .ok (dir, log)) (hpolicyLog : dir.policyLog = none)
    (hmoderationLog : dir.moderationLog = none) (hne : P ≠ []) (hneM : M ≠ [])
    (hP : derivePolicy chan P = .ok policy) (hM : deriveModerationUnder chan P M = .ok state)
    (hQ : derivePolicy chan Q = .ok policy') (hlast : Q.getLast? = some last) :
    ∃ d₁ d₂ d₃ d₄, StoreStep chan d (.appendRemotePolicyHistory P) d₁ ∧
      HoldsHistories chan d₁ P [] ∧ StoreStep chan d₁ (.appendRemoteModerationHistory M) d₂ ∧
      HoldsHistories chan d₂ P M ∧ StoreStep chan d₂ (.savePolicyConflict Q) d₃ ∧
      HoldsHistories chan d₃ P M ∧
      readSaved readPolicyEvent (policyConflictDir chan) last.id d₃ = .ok Q ∧
      StoreStep chan d₃ (.resolvePolicyConflict last.id) d₄ ∧ HoldsHistories chan d₄ Q M := by
  obtain ⟨dir₁, dir₂, hexec₁, hexec₂, hpolicyLog₁, hmoderationLog₁, hpolicyLog₂, hmoderationLog₂,
    hlog₂, -⟩ := exists_taken hopen hpolicyLog hmoderationLog hne hneM hP hM
  have hdir₁ := getElem?_put_self d chan.fullName dir₁
  have hdir₂ := getElem?_put_self d chan.fullName dir₂
  -- the other history, saved and resolved to
  obtain ⟨d₃, hexec₃, hdir₃, hsaved⟩ := exec_savePolicyConflict hQ hlast hdir₂
  have hread : readSaved readPolicyEvent (policyConflictDir chan) last.id d₃ = .ok Q :=
    readSaved_ok.2 ⟨_, hsaved, Ndjson.parse_records policyCodec Q⟩
  obtain ⟨d₄, hexec₄, hdir₄⟩ := exec_resolvePolicyConflict hread hlast hQ
    (openLog_ok.2 ⟨hdir₃, hlog₂⟩) (readPolicyLog_records hpolicyLog₂ hP)
  have hpolicies : dir₂.policyLog.getD [] = policyCodec.records P := by
    rw [hpolicyLog₂, Option.getD_some]
  have hmoderations : dir₂.moderationLog.getD [] = moderationCodec.records M := by
    rw [hmoderationLog₂, Option.getD_some]
  refine ⟨_, _, d₃, d₄, eq_exec_ignore hexec₁, ⟨dir₁, hdir₁, ?_, ?_⟩, eq_exec_ignore hexec₂,
    ⟨dir₂, hdir₂, hpolicies, hmoderations⟩, eq_exec_ignore hexec₃,
    ⟨dir₂, hdir₃, hpolicies, hmoderations⟩, hread, eq_exec_ignore hexec₄,
    ⟨_, hdir₄, rfl, hmoderations⟩⟩
  · rw [hpolicyLog₁, Option.getD_some]
  · rw [hmoderationLog₁]
    rfl

end Dropped

section TwoForks

open Simulated

attribute [local instance] simulated

/-- The owner restricts the channel, at one time or another: two histories
that share no event. -/
def restrictedAt (ts : Int64) : PolicyEvent :=
  policyEvent general 1 ts none (.restrict (identity 1).publicKey)

theorem derivePolicyStep_restrictedAt (ts : Int64) :
    derivePolicyStep general .start (restrictedAt ts) =
      .ok ⟨ownedPolicy [], some (restrictedAt ts).id⟩ := by
  have happly : applyPolicyAction .default (identity 1).publicKey
      (.restrict (identity 1).publicKey) = .ok (ownedPolicy []) := by decide +kernel
  exact derivePolicyStep_policyEvent (s := .start) happly

theorem derivePolicy_restrictedAt (ts : Int64) :
    derivePolicy general [restrictedAt ts] = .ok (ownedPolicy []) :=
  derivePolicy_ok.2 ⟨_, Replay.replay_cons_ok.2 ⟨_, derivePolicyStep_restrictedAt ts, rfl⟩, rfl⟩

/-- And moderates, at one time or another. -/
def tombstoneAt (ts : Int64) : ModerationEvent :=
  moderationEvent general 1 ts none (restrictedAt 0).id (.tombstone (identity 9).publicKey none)

/-- The first of them. -/
def firstTombstone : ModerationEvent := tombstoneAt 0

theorem exists_state_tombstoneAt (ts : Int64) : ∃ state,
    deriveModerationUnder general [restrictedAt 0] [tombstoneAt ts] = .ok state := by
  have hcited : CitedPolicy general [restrictedAt 0] (restrictedAt 0).id 0 (ownedPolicy []) :=
    ⟨by simp [policyPosition], derivePolicy_restrictedAt 0⟩
  exact ⟨_, deriveModerationUnder_ok.2 ⟨_, Replay.replay_cons_ok.2
    ⟨_, deriveModerationStep_moderationEvent (s := .start) hcited
      (by simp [policyAllowsModeration, ownedPolicy]) rfl, rfl⟩, rfl⟩⟩

/-- **Resolving to a fork breaks the moderation**: a node takes in the one
history and a moderation under it, saves the other history, and resolves
to it. -/
theorem resolution_breaks_moderation :
    ∃ d', EmptyHistories general newNode ∧
      Run (StoreStep general) newNode
        [.appendRemotePolicyHistory [restrictedAt 0],
          .appendRemoteModerationHistory [firstTombstone],
          .savePolicyConflict [restrictedAt 1],
          .resolvePolicyConflict (restrictedAt 1).id] d' ∧
      ∀ state, moderationState general d' ≠ .ok state := by
  have hdir : newNode.channels[general.fullName]? = some newDir := getElem?_put_self _ _ _
  obtain ⟨state, hstate⟩ := exists_state_tombstoneAt 0
  obtain ⟨d₁, d₂, d₃, d', hstep₁, -, hstep₂, -, hstep₃, -, -, hstep₄, hholds⟩ :=
    exists_resolution (openLog_ok.2 ⟨hdir, rfl⟩) rfl rfl (List.cons_ne_nil _ _)
      (List.cons_ne_nil _ _) (derivePolicy_restrictedAt 0) hstate (derivePolicy_restrictedAt 1)
      List.getLast?_singleton
  exact ⟨d', ⟨.absent, newDir, hdir, rfl⟩,
    .snoc (.snoc (.snoc (.snoc (.nil _) hstep₁) hstep₂) hstep₃) hstep₄,
    hholds.unreadable ⟨_, derivePolicy_restrictedAt 1⟩ (List.mem_singleton_self firstTombstone)
      (by decide +kernel)⟩

/-! ### A fork that keeps the cited head -/

/-- The owner restricts the channel, and lets this one write. -/
def writerAdded (n : UInt8) : List PolicyEvent :=
  policyChain general none
    [(1, .restrict (identity 1).publicKey), (1, .grant .writer (identity n).publicKey)]

theorem derivePolicy_writerAdded (n : UInt8) : derivePolicy general (writerAdded n) =
    .ok { ownedPolicy [] with writers := [(identity n).publicKey] } := by
  refine derivePolicy_policyChain general _ ?_
  rw [applyAll, List.foldlM_cons, show applyPolicyAction .default (identity 1).publicKey
    (.restrict (identity 1).publicKey) = .ok (ownedPolicy []) by decide +kernel]
  simp [applyPolicyAction, authorizePolicyChange, ChannelPolicy.members, ChannelPolicy.setMembers,
    ownedPolicy, ChannelPolicy.default, bind_eq_ok]

/-- What the run hashes: the events of both histories, and the tombstone. -/
def hashedPayloads : List Bytes :=
  ((writerAdded 2 ++ writerAdded 3).map fun e => e.payload.compact) ++
    [firstTombstone.payload.compact]

theorem hash_injOn_hashedPayloads : Set.InjOn blake3 {b | b ∈ hashedPayloads} := by
  have happart : ∀ b ∈ hashedPayloads, ∀ b' ∈ hashedPayloads,
      Simulated.hash b = Simulated.hash b' → b = b' := by
    decide +kernel
  exact fun b hb b' hb' => happart b hb b' hb'

/-- A tombstone's head is the first event of either history. -/
theorem exists_state_writerAdded (n : UInt8) (ts : Int64) : ∃ state,
    deriveModerationUnder general (writerAdded n) [tombstoneAt ts] = .ok state := by
  obtain ⟨state, hstate⟩ := exists_state_tombstoneAt ts
  exact ⟨state, deriveModerationUnder_append hstate _⟩

/-- The law for a node that resolves to a fork with the cited head: it
holds one history and a tombstone under its first event, and resolves to
another that begins alike. -/
theorem moderation_readable_resolved :
    ∃ d' state last, (writerAdded 3).getLast? = some last ∧ Run (StoreStep general) newNode
        [.appendRemotePolicyHistory (writerAdded 2),
          .appendRemoteModerationHistory [firstTombstone],
          .savePolicyConflict (writerAdded 3), .resolvePolicyConflict last.id] d' ∧
      readPolicyHistory general d' = .ok (writerAdded 3) ∧
      readModerationHistory general d' = .ok [firstTombstone] ∧
      moderationState general d' = .ok state := by
  have hdir : newNode.channels[general.fullName]? = some newDir := getElem?_put_self _ _ _
  have hempty : EmptyHistories general newNode := ⟨.absent, newDir, hdir, rfl⟩
  have hpolicy := derivePolicy_writerAdded 2
  have hpolicy' := derivePolicy_writerAdded 3
  obtain ⟨state, hstate⟩ := exists_state_writerAdded 2 0
  obtain ⟨last, hlast⟩ : ∃ last, (writerAdded 3).getLast? = some last := ⟨_, rfl⟩
  obtain ⟨d₁, d₂, d₃, d₄, hstep₁, h₁, hstep₂, h₂, hstep₃, h₃, hsaved, hstep₄, h₄⟩ :=
    exists_resolution (openLog_ok.2 ⟨hdir, rfl⟩) rfl rfl (List.cons_ne_nil _ _)
      (List.cons_ne_nil firstTombstone []) hpolicy hstate hpolicy' hlast
  have hnew : HoldsHistories general newNode [] [] := ⟨newDir, hdir, rfl, rfl⟩
  have hread₀ := hnew.read ⟨_, derivePolicy_nil⟩ ⟨_, deriveModerationUnder_nil⟩
  have hread₁ := h₁.read ⟨_, hpolicy⟩ ⟨_, deriveModerationUnder_nil⟩
  have hread₂ := h₂.read ⟨_, hpolicy⟩ ⟨_, hstate⟩
  have hread₃ := h₃.read ⟨_, hpolicy⟩ ⟨_, hstate⟩
  -- all that is hashed is in the one set
  have hP (n : UInt8) (hn : n = 2 ∨ n = 3) :
      policyPayloads (writerAdded n) ⊆ {b | b ∈ hashedPayloads} := by
    rintro b ⟨e, he, rfl⟩
    refine List.mem_append_left _ (List.mem_map_of_mem (List.mem_append.2 ?_))
    rcases hn with rfl | rfl
    · exact .inl he
    · exact .inr he
  have hM : moderationPayloads [firstTombstone] ⊆ {b | b ∈ hashedPayloads} := by
    rintro b ⟨e, he, rfl⟩
    rw [List.mem_singleton.1 he]
    exact List.mem_append_right _ (List.mem_singleton_self _)
  have hnoP : policyPayloads [] ⊆ {b | b ∈ hashedPayloads} := by
    rintro b ⟨e, he, -⟩
    cases he
  have hnoM : moderationPayloads [] ⊆ {b | b ∈ hashedPayloads} := by
    rintro b ⟨e, he, -⟩
    cases he
  have hhashed₄ :
      HashedIn {b | b ∈ hashedPayloads} general d₃ (.resolvePolicyConflict last.id) := by
    refine .of_reads hread₃ (hP 2 (.inl rfl)) hM ?_ hnoM
    rw [StoreOp.submittedPolicy, hsaved]
    exact hP 3 (.inr rfl)
  have hkeeps : KeepsCited general d₃ (.resolvePolicyConflict last.id) := by
    intro events M _ hevents _ _ hmoderation e he
    cases hsaved.symm.trans hevents
    cases hread₃.2.symm.trans hmoderation
    rw [List.mem_singleton.1 he]
    exact List.mem_cons_self
  have hrun : Run (Under (fun d op => HashedIn {b | b ∈ hashedPayloads} general d op ∧
      KeepsCited general d op) (StoreStep general)) newNode
      [.appendRemotePolicyHistory (writerAdded 2),
        .appendRemoteModerationHistory [firstTombstone],
        .savePolicyConflict (writerAdded 3), .resolvePolicyConflict last.id] d₄ :=
    .snoc (.snoc (.snoc (.snoc (.nil _)
      ⟨⟨.of_reads hread₀ hnoP hnoM (hP 2 (.inl rfl)) hnoM, trivial⟩, hstep₁⟩)
      ⟨⟨.of_reads hread₁ (hP 2 (.inl rfl)) hnoM hnoP hM, trivial⟩, hstep₂⟩)
      ⟨⟨.of_reads hread₂ (hP 2 (.inl rfl)) hM hnoP hnoM, trivial⟩, hstep₃⟩)
      ⟨⟨hhashed₄, hkeeps⟩, hstep₄⟩
  obtain ⟨P, M, state', hP', hM', -, hread, -⟩ :=
    moderation_readable hash_injOn_hashedPayloads hrun hempty
  have hread₄ := h₄.read ⟨_, hpolicy'⟩ (exists_state_writerAdded 3 0)
  exact ⟨d₄, state', last, hlast, hrun.of_under, hread₄.1, hread₄.2, hread⟩

end TwoForks

end Embernet
