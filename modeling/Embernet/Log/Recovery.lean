import Embernet.Log.Append
/-!
# Recovery — an index that an interruption left behind

An append writes its record and then inserts its id into the index. A
process that stops in between leaves an index that describes the log
without its last record, and so does a program that appends records and
knows of no index. The recorded length of the log then differs from its
length, and the next reader rebuilds: what it reads is always what a
rebuild of the log as it is would give.
-/

set_option autoImplicit false

namespace Embernet

open Primitives

section Recovery

variable [Primitives] {chan : ChannelRef} {d d' d₀ : Datadir} {scanned : List ScannedEnvelope}
  {env : Envelope}

/-- `append_message` up to the write of its record: the index it will
insert into, the log and the record, or none where the id is known. -/
def writeMessage (chan : ChannelRef) (env : Envelope) :
    StoreM (Option (Index × Bytes × Bytes)) := do
  bailIf (env.channel ≠ chan.fullName)
    [s!"envelope {env.id} belongs to {env.channel}, not {chan.fullName}"]
  (context s!"refusing to append invalid envelope {env.id}" env.verify : Except Error Unit)
  let dir ← openDir chan.fullName
  let log := dir.log.getD []
  modifyDir chan.fullName fun dir => { dir with log := some log }
  authorizeAppend chan env.sender
  let db ← (ensureIndex log dir.index : Except Error _)
  modifyDir chan.fullName fun dir => { dir with index := db }
  if indexContains db env.id then
    pure none
  else do
    let record := envelopeCodec.record env
    modifyDir chan.fullName fun dir => { dir with log := some (log ++ record) }
    pure (some (db, log, record))

/-- And from there: the record's id is inserted. -/
def indexMessage (chan : ChannelRef) (env : Envelope) :
    Option (Index × Bytes × Bytes) → StoreM String
  | none => pure env.id
  | some (db, log, record) => do
    let db ← (indexInsert db env.id log.length record.length (log.length + record.length) :
      Except Error _)
    modifyDir chan.fullName fun dir => { dir with index := db }
    pure env.id

/-- **An append is the two, one after the other.** -/
theorem appendMessage_eq (chan : ChannelRef) (env : Envelope) :
    appendMessage chan env = writeMessage chan env >>= indexMessage chan env := by
  simp only [appendMessage, writeMessage, bind_assoc]
  congr! 15
  split
  · rfl
  · simp only [bind_assoc, pure_bind]
    rfl

/-! ## What a step leaves behind -/

/-- A log that scans, with an index that is current or describes a shorter
log. -/
structure Recoverable (scanned : List ScannedEnvelope) (dir : Dir) : Prop where
  ok : LogOk (dir.log.getD []) dir.index scanned
  bounded : ∀ n, dir.index.logLen = some n → n ≤ (dir.log.getD []).length

/-- A channel with such a log. -/
def RecoverableChannel (chan : ChannelRef) (d : Datadir) : Prop :=
  ∃ scanned dir, d.channels[chan.fullName]? = some dir ∧ Recoverable scanned dir

namespace Recoverable

variable {dir : Dir}

theorem indexed (h : Recoverable scanned dir) : Recoverable scanned (dir.indexed scanned) where
  ok := h.ok.ensured
  bounded := by
    rintro n ⟨⟩
    exact le_rfl

theorem appended (h : Recoverable scanned dir) (henv : env.verify = .ok ())
    (hnew : ∀ item ∈ scanned, item.envelope.id ≠ env.id) :
    Recoverable (scanned ++ [newRecord (dir.log.getD []) env]) (dir.appended scanned env) where
  ok := h.ok.append henv hnew
  bounded := by
    rintro n ⟨⟩
    exact le_rfl

/-- **A record that is not indexed**: the log is longer than the index
says, and a rebuild finds the record. -/
theorem written (h : Recoverable scanned dir) (henv : env.verify = .ok ())
    (hnew : ∀ item ∈ scanned, item.envelope.id ≠ env.id) :
    Recoverable (scanned ++ [newRecord (dir.log.getD []) env])
      { dir with log := some (dir.log.getD [] ++ envelopeCodec.record env) } := by
  have happended := h.ok.append henv hnew
  have hrecord : 0 < (envelopeCodec.record env).length := by simp [Ndjson.Codec.record]
  refine ⟨⟨happended.scan, ensureIndex_of_stale happended.scan ?_, happended.nodup⟩, ?_⟩
  · rintro ⟨hlen, -⟩
    have hle := h.bounded _ hlen
    simp only [Option.getD_some, List.length_append] at hle
    omega
  · intro n hn
    have hle := h.bounded n hn
    simp only [Option.getD_some, List.length_append]
    omega

end Recoverable

/-- **The state an interrupted append leaves**: nothing was written, or
the index was made current, or the record is there and not in the
index. -/
theorem writeMessage_exec (h : RecoverableChannel chan d) (env : Envelope) :
    RecoverableChannel chan ((writeMessage chan env).exec d).2 := by
  obtain ⟨scanned, dir, hdir, hrec⟩ := h
  rw [writeMessage, Op.exec_bailIf_bind]
  by_cases hchan : env.channel = chan.fullName
  swap
  · rw [if_pos hchan]
    exact ⟨scanned, dir, hdir, hrec⟩
  rw [if_neg (not_not.2 hchan), Op.exec_except_bind]
  cases hverify : env.verify with
  | error e => exact ⟨scanned, dir, hdir, hrec⟩
  | ok u =>
    simp only [context]
    rw [Op.exec_query_bind, openDir_ok.2 hdir]
    simp only
    rw [Op.exec_bind_of_ok (exec_modifyDir hdir), Op.exec_query_bind]
    cases authorizeAppend chan env.sender _ with
    | error e => exact ⟨scanned, _, getElem?_put_self _ _ _, hrec.ok, hrec.bounded⟩
    | ok u =>
      simp only
      rw [Op.exec_except_bind, hrec.ok.ensure]
      simp only
      rw [Op.exec_bind_of_ok (exec_modifyDir (getElem?_put_self _ _ _)), put_put]
      by_cases hknown : indexContains (indexOf scanned (dir.log.getD []).length) env.id = true
      · rw [if_pos hknown]
        exact ⟨scanned, _, getElem?_put_self _ _ _, hrec.indexed⟩
      · rw [if_neg hknown, Op.exec_bind_of_ok (exec_modifyDir (getElem?_put_self _ _ _)), put_put]
        have hnew : ∀ item ∈ scanned, item.envelope.id ≠ env.id := fun item hitem heq =>
          hknown (indexContains_indexOf.2 ⟨item, hitem, heq⟩)
        exact ⟨_, _, getElem?_put_self _ _ _, hrec.indexed.written hverify hnew⟩

/-- And the state a whole one leaves. -/
theorem RecoverableChannel.append (h : RecoverableChannel chan d) (env : Envelope) :
    RecoverableChannel chan ((appendMessage chan env).exec d).2 := by
  obtain ⟨scanned, dir, hdir, hrec⟩ := h
  have houtcome : AppendOutcome chan env d dir scanned _ := appendMessage_exec hdir hrec.ok
  revert houtcome
  generalize (appendMessage chan env).exec d = result
  intro houtcome
  cases houtcome with
  | rejected _ => exact ⟨scanned, dir, hdir, hrec⟩
  | unauthorized _ => exact ⟨scanned, _, getElem?_put_self _ _ _, hrec.ok, hrec.bounded⟩
  | known _ _ _ => exact ⟨scanned, _, getElem?_put_self _ _ _, hrec.indexed⟩
  | appended hverify _ hnew => exact ⟨_, _, getElem?_put_self _ _ _, hrec.appended hverify hnew⟩

/-! ## Every run -/

/-- One step of a channel's log: an append that ran to its end, or was
interrupted once its record was written, or once its index was; a record
that something else appended, complete, valid and of an id that was not
there; or anything that leaves the log and its index alone. -/
inductive IndexStep (chan : ChannelRef) : Datadir → Option Envelope → Datadir → Prop
  | appended (d : Datadir) (env : Envelope) :
      IndexStep chan d (some env) ((appendMessage chan env).exec d).2
  | interrupted (d : Datadir) (env : Envelope) :
      IndexStep chan d (some env) ((writeMessage chan env).exec d).2
  | unindexed {d : Datadir} {env : Envelope} {dir : Dir} {scanned : List ScannedEnvelope} :
      d.channels[chan.fullName]? = some dir →
      scanVerifiedFile (dir.log.getD []) = .ok scanned → env.verify = .ok () →
      (∀ item ∈ scanned, item.envelope.id ≠ env.id) →
      IndexStep chan d (some env) (d.put chan.fullName
        { dir with log := some (dir.log.getD [] ++ envelopeCodec.record env) })
  | other {d d' : Datadir} : SameLog chan d d' → IndexStep chan d none d'

theorem RecoverableChannel.step {l : Option Envelope} (h : RecoverableChannel chan d)
    (hstep : IndexStep chan d l d') : RecoverableChannel chan d' := by
  cases hstep with
  | appended env => exact h.append env
  | interrupted env => exact writeMessage_exec h env
  | unindexed hdir hscan henv hnew =>
    obtain ⟨scanned', dir', hdir', hrec⟩ := h
    cases hdir.symm.trans hdir'
    cases hscan.symm.trans hrec.ok.scan
    exact ⟨_, _, getElem?_put_self _ _ _, hrec.written henv hnew⟩
  | other hsame =>
    obtain ⟨scanned', dir, hdir, hrec⟩ := h
    rw [SameLog, hdir, Option.map_some, Option.map_eq_some_iff] at hsame
    obtain ⟨dir', hdir', hfiles⟩ := hsame
    obtain ⟨hlog, hindex⟩ := Prod.mk.injEq .. ▸ hfiles
    refine ⟨scanned', dir', hdir', ?_, ?_⟩
    · rw [hlog, hindex]
      exact hrec.ok
    · rw [hlog, hindex]
      exact hrec.bounded

theorem EmptyChannel.recoverable (h : EmptyChannel chan d) : RecoverableChannel chan d := by
  obtain ⟨dir, hdir, hlog, hindex⟩ := h
  refine ⟨[], dir, hdir, ?_, by simp [hindex]⟩
  rw [hlog]
  exact ⟨rfl, ensureIndex_of_stale rfl (by simp [hindex]), .nil⟩

/-- **The index is the rebuilt one**, after any run of appends, each of
which may have been interrupted, and of records that nobody indexed: what
`ensure_index` gives then, in every table, is what `rebuild_index` computes
from the log there is. -/
theorem index_as_rebuilt {steps : List (Option Envelope)}
    (hrun : Run (IndexStep chan) d₀ steps d) (h₀ : EmptyChannel chan d₀) :
    ∃ dir scanned db, d.channels[chan.fullName]? = some dir ∧
      scanVerifiedFile (dir.log.getD []) = .ok scanned ∧
      rebuildIndex scanned (dir.log.getD []).length = .ok db ∧
      ensureIndex (dir.log.getD []) dir.index = .ok db := by
  have hrec : RecoverableChannel chan d :=
    hrun.invariant (I := RecoverableChannel chan) (fun _ _ _ h hstep => h.step hstep) h₀.recoverable
  obtain ⟨scanned, dir, hdir, hok, -⟩ := hrec
  exact ⟨dir, scanned, _, hdir, hok.scan, rebuildIndex_eq (verify_of_mem_scan hok.scan) _, hok.ensure⟩

end Recovery

section Interrupted

open Simulated

attribute [local instance] simulated

/-- The law where a record was written behind a whole append, and not
indexed: the index that is there describes the shorter log. -/
theorem index_as_rebuilt_interrupted :
    ∃ d dir scanned db,
      Run (IndexStep general) newNode
        [some (envelope general 1 hello), some (envelope general 2 reminder)] d ∧
      d.channels[general.fullName]? = some dir ∧
      scanned.map (·.envelope) = [envelope general 1 hello, envelope general 2 reminder] ∧
      dir.index.logLen ≠ some (dir.log.getD []).length ∧
      rebuildIndex scanned (dir.log.getD []).length = .ok db ∧
      ensureIndex (dir.log.getD []) dir.index = .ok db := by
  have hgreeted : greetedNode.channels[general.fullName]? = some greetedDir :=
    getElem?_put_self _ _ _
  have hrec : Recoverable [newRecord [] (envelope general 1 hello)] greetedDir :=
    ⟨logOk_greetedDir, by rintro n ⟨⟩; exact le_rfl⟩
  have hverify := verify_envelope general 2 reminder
  have hnew : ∀ item ∈ [newRecord [] (envelope general 1 hello)],
      item.envelope.id ≠ (envelope general 2 reminder).id := fun item hitem => by
    rw [List.mem_singleton.1 hitem]
    exact id_reminder_ne.symm
  have hfirst : IndexStep general newNode (some (envelope general 1 hello)) greetedNode := by
    have hstep : IndexStep general _ _ _ := .appended newNode (envelope general 1 hello)
    rwa [first_append] at hstep
  have hrun := Run.snoc (.snoc (.nil newNode) hfirst)
    (.unindexed hgreeted logOk_greetedDir.scan hverify hnew)
  obtain ⟨dir, scanned, db, hdir, hscan, hrebuild, hensure⟩ :=
    index_as_rebuilt hrun emptyChannel_newNode
  have hwritten := hrec.written hverify hnew
  rw [getElem?_put_self, Option.some.injEq] at hdir
  subst hdir
  obtain rfl := Except.ok.inj (hwritten.ok.scan.symm.trans hscan)
  refine ⟨_, _, _, db, hrun, getElem?_put_self _ _ _, rfl, fun hlength => ?_, hrebuild, hensure⟩
  have hrecord : 0 < (envelopeCodec.record (envelope general 2 reminder)).length := by
    simp [Ndjson.Codec.record]
  have hle := hrec.bounded _ hlength
  simp only [Option.getD_some, List.length_append] at hle
  omega

end Interrupted

end Embernet
