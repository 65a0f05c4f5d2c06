import Embernet.Log.Append
import Embernet.Store.Histories
/-!
# The log invariant — records in order, each by an author who was allowed

Whatever operations run on a channel, in whatever order, its log is the
records of a list of verified envelopes of that channel, no id twice. An
operation adds at most one record, behind those there are, and only an
append does, in a state whose policy lets its author write.
-/

set_option autoImplicit false

namespace Embernet

open Primitives

section Invariant

variable [Primitives] {chan : ChannelRef} {d d' d₀ : Datadir} {records : List Envelope}

/-- The log of the channel is these records, one after the other. -/
def LogHolds (chan : ChannelRef) (d : Datadir) (records : List Envelope) : Prop :=
  HasDir chan.fullName (fun dir => dir.log.getD [] = envelopeCodec.records records) d

/-- A log holds one list of records. -/
theorem LogHolds.unique {records' : List Envelope} (h : LogHolds chan d records)
    (h' : LogHolds chan d records') : records = records' := by
  obtain ⟨dir, hdir, hlog⟩ := h
  obtain ⟨dir', hdir', hlog'⟩ := h'
  cases hdir.symm.trans hdir'
  have hparse := Ndjson.parse_records envelopeCodec records
  rw [← hlog, hlog', Ndjson.parse_records] at hparse
  exact (Except.ok.inj hparse).symm

/-- The log is these records, which a scan finds, and the index is current
or stale. -/
structure IndexedRecords (records : List Envelope) (dir : Dir) : Prop where
  log : dir.log.getD [] = envelopeCodec.records records
  indexed : ∃ scanned, LogOk (dir.log.getD []) dir.index scanned ∧
    scanned.map (·.envelope) = records

/-- The invariant: such a log, with records of this channel only. -/
structure Orderly (chan : ChannelRef) (d : Datadir) (records : List Envelope) : Prop where
  dir : HasDir chan.fullName (IndexedRecords records) d
  channel : ∀ env ∈ records, env.channel = chan.fullName

theorem Orderly.logHolds (h : Orderly chan d records) : LogHolds chan d records := by
  obtain ⟨dir, hdir, hrecords⟩ := h.dir
  exact ⟨dir, hdir, hrecords.log⟩

/-- What a scan finds is verified, and its ids are distinct. -/
theorem Orderly.verified (h : Orderly chan d records) :
    (∀ env ∈ records, env.verify = .ok ()) ∧ (records.map Envelope.id).Nodup := by
  obtain ⟨dir, -, hrecords⟩ := h.dir
  obtain ⟨scanned, hlog, rfl⟩ := hrecords.indexed
  refine ⟨fun env henv => ?_, ?_⟩
  · obtain ⟨item, hitem, rfl⟩ := List.mem_map.1 henv
    exact verify_of_mem_scan hlog.scan item hitem
  · rw [List.map_map]
    exact hlog.nodup

theorem EmptyChannel.orderly (h : EmptyChannel chan d) : Orderly chan d [] := by
  obtain ⟨dir, hdir, hlog, hindex⟩ := h
  refine ⟨⟨dir, hdir, hlog, [], ?_, rfl⟩, by simp⟩
  rw [hlog]
  exact ⟨rfl, ensureIndex_of_stale rfl (by simp [hindex]), .nil⟩

/-! ## One operation -/

theorem indexedRecords_touchFree : TouchFree (There (IndexedRecords records)) := fun _ h =>
  h.map fun _ h => ⟨h.log, h.indexed⟩

/-- Bringing the index up to date. -/
theorem indexedRecords_indexFree : IndexFree (There (IndexedRecords records)) := by
  intro dir log db hlog hensure h
  have h := There.of_some.1 h
  obtain ⟨scanned, hok, hscanned⟩ := h.indexed
  refine ⟨_, rfl, h.log, scanned, ?_, hscanned⟩
  have hdb : db = indexOf scanned log.length := by
    have := hok.ensure
    rw [hlog, Option.getD_some, hensure] at this
    exact Except.ok.inj this
  rw [hdb]
  have hensured := hok.ensured
  simp only [hlog, Option.getD_some] at hensured ⊢
  exact hensured

/-- An append, as a step of the node. -/
theorem storeStep_appendMessage {env : Envelope} {r : Except Error String}
    (h : (appendMessage chan env).exec d = (r, d')) : StoreStep chan d (.appendMessage env) d' :=
  eq_exec_ignore h

/-- **No other operation writes the log.** -/
theorem Orderly.other (h : Orderly chan d records) {op : StoreOp}
    (hop : ∀ env, op ≠ .appendMessage env) : Orderly chan (op.exec chan d) records := by
  refine ⟨keeps_of_log_index (fun dir dir' hlog hindex h => ?_) indexedRecords_touchFree
    indexedRecords_indexFree hop d h.dir, h.channel⟩
  exact ⟨by rw [hlog, h.log], by rw [hlog, hindex]; exact h.indexed⟩

/-- An envelope of another channel is refused before anything is written. -/
theorem exec_appendMessage_of_ne {env : Envelope} (h : env.channel ≠ chan.fullName) :
    ((appendMessage chan env).exec d).2 = d := by
  rw [appendMessage, Op.exec_bailIf_bind, if_pos h]

/-- **An append adds its record or none**, and adds it where the policy
lets its author write. -/
theorem Orderly.append (h : Orderly chan d records) (env : Envelope) :
    Orderly chan ((appendMessage chan env).exec d).2 records ∨
      Orderly chan ((appendMessage chan env).exec d).2 (records ++ [env]) ∧
        authorizeAppend chan env.sender d = .ok () := by
  by_cases hchannel : env.channel = chan.fullName
  swap
  · exact Or.inl (exec_appendMessage_of_ne hchannel ▸ h)
  obtain ⟨dir, hdir, hlog, scanned, hok, rfl⟩ := h.dir
  have houtcome : AppendOutcome chan env d dir scanned _ := appendMessage_exec hdir hok
  revert houtcome
  generalize (appendMessage chan env).exec d = result
  intro houtcome
  cases houtcome with
  | rejected _ => exact Or.inl h
  | unauthorized _ =>
    exact Or.inl ⟨⟨_, getElem?_put_self _ _ _, hlog, scanned, hok, rfl⟩, h.channel⟩
  | known _ _ _ =>
    exact Or.inl ⟨⟨_, getElem?_put_self _ _ _, hlog, scanned, hok.ensured, rfl⟩, h.channel⟩
  | appended hverify hauth hnew =>
    refine Or.inr ⟨⟨⟨_, getElem?_put_self _ _ _, ?_, _, hok.append hverify hnew, by simp⟩, ?_⟩,
      hauth⟩
    · simp only [Dir.appended, Option.getD_some, hlog, Ndjson.Codec.records, List.flatMap_append,
        List.flatMap_singleton]
    · intro env' henv'
      rcases List.mem_append.1 henv' with hold | hnew'
      · exact h.channel env' hold
      · rw [List.mem_singleton.1 hnew', hchannel]

/-- **What one operation does to the log**: nothing, or it is an append
whose record comes last. -/
theorem Orderly.step (h : Orderly chan d records) {op : StoreOp}
    (hstep : StoreStep chan d op d') :
    Orderly chan d' records ∨ ∃ env, op = .appendMessage env ∧
      Orderly chan d' (records ++ [env]) ∧ authorizeAppend chan env.sender d = .ok () := by
  subst hstep
  by_cases hop : ∃ env, op = .appendMessage env
  · obtain ⟨env, rfl⟩ := hop
    have hexec : StoreOp.exec chan (.appendMessage env) d = ((appendMessage chan env).exec d).2 :=
      exec_ignore _ _
    rw [hexec]
    exact (h.append env).imp id fun ⟨horderly, hauth⟩ => ⟨env, rfl, horderly, hauth⟩
  · exact Or.inl (h.other fun env henv => hop ⟨env, henv⟩)

/-- The envelope is one that an append enters: of this channel, verified,
by an author who may write, and of an id the log does not hold. -/
structure Acceptable (chan : ChannelRef) (d : Datadir) (env : Envelope) : Prop where
  channel : env.channel = chan.fullName
  verified : env.verify = .ok ()
  allowed : authorizeAppend chan env.sender d = .ok ()
  new : ∀ records, LogHolds chan d records → env.id ∉ records.map Envelope.id

/-- **An append enters exactly what is acceptable.** -/
theorem Orderly.enters_iff {op : StoreOp} {env : Envelope} (h : Orderly chan d records) :
    LogHolds chan (op.exec chan d) (records ++ [env]) ↔
      op = .appendMessage env ∧ Acceptable chan d env := by
  constructor
  · intro henters
    have hstep : StoreStep chan d op (op.exec chan d) := rfl
    rcases h.step hstep with hsame | ⟨env', rfl, hmore, hauth⟩
    · have hlength := congrArg List.length (hsame.logHolds.unique henters)
      rw [List.length_append, List.length_singleton] at hlength
      omega
    · obtain rfl : env' = env := by simpa using hmore.logHolds.unique henters
      obtain ⟨hverified, hnodup⟩ := hmore.verified
      refine ⟨rfl, hmore.channel _ (by simp), hverified _ (by simp), hauth, fun records' h' => ?_⟩
      rw [h'.unique h.logHolds]
      rw [List.map_append, List.nodup_append] at hnodup
      exact fun hmem => hnodup.2.2 _ hmem _ (by simp) rfl
  · rintro ⟨rfl, haccept⟩
    have hnew := haccept.new records h.logHolds
    obtain ⟨dir, hdir, hlog, scanned, hok, rfl⟩ := h.dir
    have hexec := appendMessage_exec_allowed hdir hok haccept.channel haccept.verified
      haccept.allowed
    rw [if_neg] at hexec
    · have hop : StoreOp.exec chan (.appendMessage env) d = ((appendMessage chan env).exec d).2 :=
        exec_ignore _ _
      rw [hop, hexec]
      refine ⟨_, getElem?_put_self _ _ _, ?_⟩
      simp only [Dir.appended, Option.getD_some, hlog, Ndjson.Codec.records, List.flatMap_append,
        List.flatMap_singleton]
    · rw [indexContains_indexOf]
      rintro ⟨item, hitem, hid⟩
      exact hnew (List.mem_map.2 ⟨item.envelope, List.mem_map_of_mem hitem, hid⟩)

/-! ## Every run -/

/-- The log only grows. -/
theorem Orderly.run {ops : List StoreOp} (h : Orderly chan d records)
    (hrun : Run (StoreStep chan) d ops d') : ∃ later, Orderly chan d' (records ++ later) := by
  refine hrun.invariant (I := fun d => ∃ later, Orderly chan d (records ++ later)) ?_ ⟨[], by simpa⟩
  rintro _ op _ ⟨later, hlater⟩ hstep
  rcases hlater.step hstep with hsame | ⟨env, -, hmore, -⟩
  · exact ⟨later, hsame⟩
  · exact ⟨later ++ [env], by rwa [List.append_assoc] at hmore⟩

/-- A record was entered by an append of the run: when it ran, the log
held the records before this one, and the policy let the author write. -/
def Entered (chan : ChannelRef) (d₀ : Datadir) (ops : List StoreOp) (before : List Envelope)
    (env : Envelope) : Prop :=
  ∃ ops₁ ops₂ u policy, ops = ops₁ ++ .appendMessage env :: ops₂ ∧
    Run (StoreStep chan) d₀ ops₁ u ∧ LogHolds chan u before ∧
    readChannelPolicy chan u = .ok policy ∧ policyAllowsAppend policy env.sender = true

theorem Entered.more {ops : List StoreOp} {before : List Envelope} {env : Envelope}
    (h : Entered chan d₀ ops before env) (op : StoreOp) :
    Entered chan d₀ (ops ++ [op]) before env := by
  obtain ⟨ops₁, ops₂, u, policy, rfl, hrest⟩ := h
  exact ⟨ops₁, ops₂ ++ [op], u, policy, by simp, hrest⟩

theorem exists_entered {ops : List StoreOp} (hrun : Run (StoreStep chan) d₀ ops d)
    (h₀ : EmptyChannel chan d₀) :
    ∃ records, Orderly chan d records ∧ ∀ i (hi : i < records.length),
      Entered chan d₀ ops (records.take i) records[i] := by
  induction hrun with
  | nil => exact ⟨[], h₀.orderly, by simp⟩
  | @snoc t u ops op hinit hlast ih =>
    obtain ⟨records, horderly, hentered⟩ := ih
    rcases horderly.step hlast with hsame | ⟨env, rfl, hmore, hauth⟩
    · exact ⟨records, hsame, fun i hi => (hentered i hi).more op⟩
    · refine ⟨records ++ [env], hmore, fun i hi => ?_⟩
      rcases Nat.lt_or_ge i records.length with hlt | hge
      · rw [List.getElem_append_left hlt, List.take_append_of_le_length hlt.le]
        exact (hentered i hlt).more _
      · -- the last record is the one just appended
        have hi' : i = records.length := by
          rw [List.length_append, List.length_singleton] at hi
          omega
        subst hi'
        rw [List.getElem_concat_length rfl, List.take_left]
        obtain ⟨policy, hpolicy, hallow⟩ := authorizeAppend_ok.1 hauth
        exact ⟨ops, [], t, policy, rfl, hinit, horderly.logHolds, hpolicy, hallow⟩

/-- **The log invariant.** After any run of operations on a channel whose
log was empty, the log is a sequence of complete records. Each verifies
and names this channel, no two have one id, each was written behind the
records before it when the policy let its author write, and whatever runs
later leaves them where they are. -/
theorem log_invariant {ops : List StoreOp} (hrun : Run (StoreStep chan) d₀ ops d)
    (h₀ : EmptyChannel chan d₀) :
    ∃ records : List Envelope, LogHolds chan d records ∧
      (∀ env ∈ records, env.verify = .ok () ∧ env.channel = chan.fullName) ∧
      (records.map Envelope.id).Nodup ∧
      (∀ i (hi : i < records.length), Entered chan d₀ ops (records.take i) records[i]) ∧
      ∀ ops' d', Run (StoreStep chan) d ops' d' → ∃ later, LogHolds chan d' (records ++ later) := by
  obtain ⟨records, horderly, hentered⟩ := exists_entered hrun h₀
  obtain ⟨hverified, hnodup⟩ := horderly.verified
  refine ⟨records, horderly.logHolds,
    fun env henv => ⟨hverified env henv, horderly.channel env henv⟩,
    hnodup, hentered, fun ops' d' hrun' => ?_⟩
  obtain ⟨later, hlater⟩ := horderly.run hrun'
  exact ⟨later, hlater.logHolds⟩

end Invariant

section Greeted

open Simulated

attribute [local instance] simulated

/-- Somebody else takes the channel over: only they may write then. -/
def takenOver : List PolicyEvent :=
  policyChain general none [(2, .restrict (identity 2).publicKey)]

/-- The policy once the channel was taken over. -/
def takenOverPolicy : ChannelPolicy :=
  { ChannelPolicy.default with mode := .restricted, owner := some (identity 2).publicKey }

theorem derivePolicy_takenOver : derivePolicy general takenOver = .ok takenOverPolicy :=
  derivePolicy_policyChain general _ (by decide +kernel)

/-- The invariant for a greeting, a policy under which its author may write
no more, and a message of the new owner: both records are there, and the
second was entered behind the first and under that policy. -/
theorem log_invariant_takenOver : ∃ d,
    Run (StoreStep general) newNode [.appendMessage (envelope general 1 hello),
      .appendRemotePolicyHistory takenOver, .appendMessage (envelope general 2 reminder)] d ∧
    LogHolds general d [envelope general 1 hello, envelope general 2 reminder] ∧
    ([envelope general 1 hello, envelope general 2 reminder].map Envelope.id).Nodup ∧
    Entered general newNode [.appendMessage (envelope general 1 hello),
        .appendRemotePolicyHistory takenOver, .appendMessage (envelope general 2 reminder)]
      [envelope general 1 hello] (envelope general 2 reminder) := by
  obtain ⟨P, hPdef⟩ : ∃ P, P = takenOver := ⟨_, rfl⟩
  have hP : derivePolicy general P = .ok takenOverPolicy := hPdef ▸ derivePolicy_takenOver
  have hne : P ≠ [] := by
    rw [hPdef]
    exact List.cons_ne_nil _ _
  rw [← hPdef]
  -- the policy arrives behind the greeting
  have hdir₁ : greetedNode.channels[general.fullName]? = some greetedDir := getElem?_put_self _ _ _
  have hexec := exec_appendRemotePolicyHistory (openLog_ok.2 ⟨hdir₁, rfl⟩)
    (rfl : readPolicyLog general greetedDir = .ok []) hP (by simp [idPrefix])
  rw [List.length_nil, List.drop_zero] at hexec
  obtain ⟨dir, hdef⟩ : ∃ dir, dir = appendPolicyRecords P takenOverPolicy greetedDir := ⟨_, rfl⟩
  rw [← hdef] at hexec
  have hdir := getElem?_put_self greetedNode general.fullName dir
  have hpolicyLog : dir.policyLog = some (policyCodec.records P) := by
    simp [hdef, appendPolicyRecords, hne, greetedDir, newDir, Dir.appended]
  have hlog : dir.log = greetedDir.log := by
    rw [hdef]
    rfl
  have hpolicy : readChannelPolicy general (greetedNode.put general.fullName dir) =
      .ok takenOverPolicy := by
    rw [readChannelPolicy_of_getElem? hdir, readDirPolicy, if_pos (by rw [hpolicyLog]; rfl),
      readPolicyLog_records hpolicyLog hP]
    exact hP
  have hrun : Run (StoreStep general) newNode [.appendMessage (envelope general 1 hello),
      .appendRemotePolicyHistory P] (greetedNode.put general.fullName dir) :=
    .snoc (.snoc (.nil _) (storeStep_appendMessage first_append)) (eq_exec_ignore hexec)
  have hfirst : LogHolds general (greetedNode.put general.fullName dir)
      [envelope general 1 hello] := by
    refine ⟨dir, hdir, ?_⟩
    simp [hlog, greetedDir, newDir, Dir.appended, Ndjson.Codec.records]
  obtain ⟨later, horderly⟩ := emptyChannel_newNode.orderly.run hrun
  rw [List.nil_append] at horderly
  obtain rfl := hfirst.unique horderly.logHolds
  -- the new owner may write
  have haccept : Acceptable general (greetedNode.put general.fullName dir)
      (envelope general 2 reminder) :=
    ⟨rfl, verify_envelope general 2 reminder,
      authorizeAppend_ok.2 ⟨_, hpolicy, by simp [policyAllowsAppend, takenOverPolicy, envelope]⟩,
      fun records hrecords => by
        rw [hrecords.unique hfirst, List.map_singleton, List.mem_singleton]
        exact id_reminder_ne⟩
  have hboth := horderly.enters_iff.2 ⟨rfl, haccept⟩
  have hrun' := Run.snoc hrun (rfl : StoreStep general _ (.appendMessage (envelope general 2 reminder)) _)
  obtain ⟨records, hrecords, -, hnodup, hentered, -⟩ := log_invariant hrun' emptyChannel_newNode
  obtain rfl := hboth.unique hrecords
  exact ⟨_, hrun', hboth, hnodup, hentered 1 (by simp)⟩

end Greeted

end Embernet
