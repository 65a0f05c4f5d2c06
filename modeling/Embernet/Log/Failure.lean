import Embernet.Log.Recovery
import Embernet.Log.View
/-!
# Failure — what an append that fails leaves behind

An append can fail at each of its writes, and its one write to the log may
then have stored a part of the record. Where it stored nothing or all of
it, the log is as usable as before. Where it stored a part, the file ends
in a torn line: the records in front of it are still there, and every
later read and append is refused at the line until it is repaired.
-/

set_option autoImplicit false

namespace Embernet

open Ndjson Primitives

/-! ## Appends that fail -/

/-- Where an append can fail, its checks apart. What was changed in the
index stays or not, as one. -/
inductive AppendFault
  /-- The log cannot be opened. -/
  | opening
  /-- It cannot be locked, or the policy cannot be read. -/
  | locking
  /-- The index cannot be brought up to date. -/
  | indexing (kept : Bool)
  /-- The write stops after so many bytes. -/
  | writing (stored : ℕ)
  /-- What was written cannot be flushed, synchronized or measured. -/
  | syncing
  /-- The id cannot be inserted into the index. -/
  | inserting (kept : Bool)
  deriving DecidableEq

/-- The write itself fails. -/
def AppendFault.cuts : AppendFault → Bool
  | .writing _ => true
  | _ => false

/-- What the write stores of a record. -/
def AppendFault.stored : Option AppendFault → Bytes → Bytes
  | some (.writing stored), record => record.take stored
  | _, record => record

/-- What a write stores: the record, or as much of it as there was room
for. -/
theorem AppendFault.exists_stored (fault : Option AppendFault) (record : Bytes) :
    ∃ n, (n < record.length → fault = some (.writing n)) ∧
      AppendFault.stored fault record = record.take n := by
  match fault with
  | some (.writing n) => exact ⟨n, fun _ => rfl, rfl⟩
  | none | some .opening | some .locking | some (.indexing _) | some .syncing
  | some (.inserting _) =>
    exact ⟨record.length, fun h => absurd h (lt_irrefl _), (List.take_length).symm⟩

theorem AppendFault.stored_of_not_cuts {fault : Option AppendFault}
    (h : ¬ fault.any AppendFault.cuts = true) (record : Bytes) :
    AppendFault.stored fault record = record := by
  match fault with
  | some (.writing n) => exact absurd rfl h
  | none | some .opening | some .locking | some (.indexing _) | some .syncing
  | some (.inserting _) => rfl

section Failure

variable [Primitives] {chan : ChannelRef} {env : Envelope} {fault : Option AppendFault}
  {d d' d₀ : Datadir} {dir : Dir} {scanned : List ScannedEnvelope} {records : List Envelope}
  {piece : Bytes}

/-- `append_message`, on a disk that may fail once. -/
def appendMessageWith (fault : Option AppendFault) (chan : ChannelRef) (env : Envelope) :
    StoreM String := do
  bailIf (env.channel ≠ chan.fullName)
    [s!"envelope {env.id} belongs to {env.channel}, not {chan.fullName}"]
  (context s!"refusing to append invalid envelope {env.id}" env.verify : Except Error Unit)
  let dir ← openDir chan.fullName
  bailIf (fault = some .opening) ["open log.ndjson"]
  let log := dir.log.getD []
  modifyDir chan.fullName fun dir => { dir with log := some log }
  bailIf (fault = some .locking) ["lock log.ndjson"]
  authorizeAppend chan env.sender
  let db ← (ensureIndex log dir.index : Except Error _)
  bailIf (fault = some (.indexing false)) ["open index.redb"]
  modifyDir chan.fullName fun dir => { dir with index := db }
  bailIf (fault = some (.indexing true)) ["open index.redb"]
  if indexContains db env.id then
    pure env.id
  else do
    let record := envelopeCodec.record env
    modifyDir chan.fullName fun dir =>
      { dir with log := some (log ++ AppendFault.stored fault record) }
    bailIf (fault.any AppendFault.cuts) ["append log.ndjson"]
    bailIf (fault = some .syncing) ["sync log.ndjson"]
    let db ← (indexInsert db env.id log.length record.length (log.length + record.length) :
      Except Error _)
    bailIf (fault = some (.inserting false)) ["commit index.redb"]
    modifyDir chan.fullName fun dir => { dir with index := db }
    bailIf (fault = some (.inserting true)) ["commit index.redb"]
    pure env.id

/-- **Without a fault it is the append.** -/
theorem appendMessageWith_none (chan : ChannelRef) (env : Envelope) :
    appendMessageWith none chan env = appendMessage chan env := by
  simp only [appendMessageWith, appendMessage, bailIf, reduceCtorEq, if_false, pure_bind,
    Option.any_none, Bool.false_eq_true, AppendFault.stored]

/-! ## What such an append does -/

/-- The log is there and is these records, and its index is current or
describes a shorter log. -/
structure SoundLog (records : List Envelope) (dir : Dir) : Prop where
  log : dir.log = some (envelopeCodec.records records)
  indexed : ∃ scanned, Recoverable scanned dir ∧ scanned.map (·.envelope) = records

/-- **What an append does** that may fail, to a log that scans: nothing, or
it brings the index up to date, or it stores some of the record and fails,
or it adds the record. -/
inductive FaultOutcome (chan : ChannelRef) (env : Envelope) (fault : Option AppendFault)
    (d : Datadir) (dir : Dir) (scanned : List ScannedEnvelope) :
    Except Error String × Datadir → Prop
  | unchanged {e : Error} : FaultOutcome chan env fault d dir scanned (.error e, d)
  | indexed {r : Except Error String} :
      FaultOutcome chan env fault d dir scanned (r, d.put chan.fullName (dir.indexed scanned))
  | written {e : Error} (n : ℕ) :
      (n < (envelopeCodec.record env).length → fault = some (.writing n)) →
      env.verify = .ok () → (∀ item ∈ scanned, item.envelope.id ≠ env.id) →
      FaultOutcome chan env fault d dir scanned (.error e, d.put chan.fullName
        { dir.indexed scanned with
          log := some (dir.log.getD [] ++ (envelopeCodec.record env).take n) })
  | appended {r : Except Error String} :
      env.verify = .ok () → (∀ item ∈ scanned, item.envelope.id ≠ env.id) →
      FaultOutcome chan env fault d dir scanned (r, d.put chan.fullName (dir.appended scanned env))

theorem appendMessageWith_exec (fault : Option AppendFault) (env : Envelope)
    (hdir : d.channels[chan.fullName]? = some dir)
    (hsome : dir.log.isSome = true) (hlog : LogOk (dir.log.getD []) dir.index scanned) :
    env.channel ≠ chan.fullName ∧ (∃ e, (appendMessageWith fault chan env).exec d = (.error e, d)) ∨
      env.channel = chan.fullName ∧
        FaultOutcome chan env fault d dir scanned ((appendMessageWith fault chan env).exec d) := by
  have htouch : { dir with log := some (dir.log.getD []) } = dir := by
    obtain ⟨log, hlog⟩ := Option.isSome_iff_exists.1 hsome
    rw [hlog, Option.getD_some, ← hlog]
  rw [appendMessageWith, Op.exec_bailIf_bind]
  by_cases hchan : env.channel = chan.fullName
  swap
  · rw [if_pos hchan]
    exact .inl ⟨hchan, _, rfl⟩
  refine .inr ⟨hchan, ?_⟩
  rw [if_neg (not_not.2 hchan), Op.exec_except_bind]
  cases hverify : env.verify with
  | error e => exact .unchanged
  | ok u =>
    simp only [context]
    rw [Op.exec_query_bind, openDir_ok.2 hdir]
    simp only
    rw [Op.exec_bailIf_bind]
    split
    · exact .unchanged
    rw [Op.exec_bind_of_ok (exec_modifyDir hdir), htouch, put_self hdir, Op.exec_bailIf_bind]
    split
    · exact .unchanged
    rw [Op.exec_query_bind]
    cases authorizeAppend chan env.sender d with
    | error e => exact .unchanged
    | ok u =>
      simp only
      rw [Op.exec_except_bind, hlog.ensure]
      simp only
      rw [Op.exec_bailIf_bind]
      split
      · exact .unchanged
      rw [Op.exec_bind_of_ok (exec_modifyDir hdir), Op.exec_bailIf_bind]
      have hindexed : { dir with index := indexOf scanned (dir.log.getD []).length } =
          dir.indexed scanned := by
        have hfile : some (dir.log.getD []) = dir.log := congrArg Dir.log htouch
        simp only [Dir.indexed, hfile]
      rw [hindexed]
      split
      · exact .indexed
      by_cases hknown : indexContains (indexOf scanned (dir.log.getD []).length) env.id = true
      · rw [if_pos hknown]
        exact .indexed
      have hnew : ∀ item ∈ scanned, item.envelope.id ≠ env.id := fun item hitem heq =>
        hknown (indexContains_indexOf.2 ⟨item, hitem, heq⟩)
      -- the record is written
      obtain ⟨n, hn, hstored⟩ := AppendFault.exists_stored fault (envelopeCodec.record env)
      rw [if_neg hknown, Op.exec_bind_of_ok (exec_modifyDir (getElem?_put_self _ _ _)), put_put,
        hstored, Op.exec_bailIf_bind]
      split
      · exact .written n hn hverify hnew
      rename_i hwhole
      rw [← hstored, AppendFault.stored_of_not_cuts hwhole, Op.exec_bailIf_bind]
      have hwritten (e : Error) : FaultOutcome chan env fault d dir scanned (.error e, _) :=
        .written (envelopeCodec.record env).length (fun h => absurd h (lt_irrefl _)) hverify hnew
      rw [List.take_length] at hwritten
      split
      · exact hwritten _
      -- and its id inserted
      rw [Op.exec_except_bind, indexInsert_indexOf hverify]
      simp only
      rw [Op.exec_bailIf_bind]
      split
      · exact hwritten _
      have happended (r : Except Error String) : FaultOutcome chan env fault d dir scanned (r, _) :=
        .appended hverify hnew
      rw [Dir.appended, List.length_append] at happended
      rw [Op.exec_bind_of_ok (exec_modifyDir (getElem?_put_self _ _ _)), put_put,
        Op.exec_bailIf_bind]
      split
      · exact happended _
      · exact happended _

/-! ## A log that is usable -/

/-- The log holds these records, and every call goes as on such a log: each
read through the index as on a log that has none, each record under its
id, each tail and view the last of them, and each append that passes its
checks. -/
structure UsableLog (chan : ChannelRef) (d : Datadir) (records : List Envelope) : Prop where
  holds : LogHolds chan d records
  reads : ∃ db, ensureIndex (envelopeCodec.records records) {} = .ok db ∧
    ∀ (α : Type) (f : Bytes → Index → Except Error α),
      ∃ d', (readIndexed chan f).exec d = (f (envelopeCodec.records records) db, d')
  messages : ∀ id env, (∃ d', (readMessageById chan id).exec d = (.ok env, d')) ↔
    env ∈ records ∧ env.id = id
  tails : ∀ n, ∃ d', (readChannelTail chan n true).exec d = (.ok (records.rtake n), d')
  views : ∀ n state, moderationState chan d = .ok state →
    ∃ d', (readChannelTail chan n false).exec d =
      (.ok ((records.filter fun env => !state.tombstoned.contains env.id).rtake n), d')
  appends : ∀ env, env.channel = chan.fullName → env.verify = .ok () →
    authorizeAppend chan env.sender d = .ok () →
    ∃ d', (appendMessage chan env).exec d = (.ok env.id, d') ∧
      LogHolds chan d' (if env.id ∈ records.map Envelope.id then records else records ++ [env])

/-- The channel's log is sound, and its records are of the channel. -/
structure SoundChannel (chan : ChannelRef) (d : Datadir) (records : List Envelope) : Prop where
  dir : HasDir chan.fullName (SoundLog records) d
  channel : ∀ env ∈ records, env.channel = chan.fullName

theorem SoundChannel.orderly (h : SoundChannel chan d records) : Orderly chan d records := by
  obtain ⟨dir, hdir, hlog, scanned, hrec, hscanned⟩ := h.dir
  refine ⟨⟨dir, hdir, by rw [hlog, Option.getD_some], scanned, hrec.ok, hscanned⟩, h.channel⟩

/-- The records of such a log are what is served, each under its id. -/
theorem SoundChannel.message (h : SoundChannel chan d records) {log : Bytes} {db : Index}
    (hlog : log = envelopeCodec.records records) (hok : LogOk log db scanned)
    (hscanned : scanned.map (·.envelope) = records) {id : String} :
    (do
      let (offset, length) ← orBail [s!"message {id} is not indexed"] (messageTable scanned)[id]?
      readIndexedEnvelope log chan id offset length) = .ok env ↔ env ∈ records ∧ env.id = id := by
  have hread {item : ScannedEnvelope} (hitem : item ∈ scanned) :=
    readIndexedEnvelope_of_records hok.scan hlog h.channel hitem
  simp only [bind_eq_ok, orBail_eq_ok, getElem?_messageTable hok.nodup, List.mem_map]
  constructor
  · rintro ⟨⟨offset, length⟩, ⟨item, hitem, hplace⟩, henv⟩
    cases hplace
    obtain rfl : item.envelope = env := Except.ok.inj ((hread hitem).symm.trans henv)
    exact ⟨hscanned ▸ List.mem_map_of_mem hitem, rfl⟩
  · rintro ⟨hmem, rfl⟩
    rw [← hscanned] at hmem
    obtain ⟨item, hitem, rfl⟩ := List.mem_map.1 hmem
    exact ⟨(item.offset, item.length), ⟨item, hitem, rfl⟩, hread hitem⟩

/-- **A sound log is usable.** -/
theorem SoundChannel.usable (h : SoundChannel chan d records) : UsableLog chan d records := by
  have horderly := h.orderly
  obtain ⟨dir, hdir, hlog, scanned, hrec, hscanned⟩ := h.dir
  have hok := hrec.ok
  have hopen : openLog chan d = .ok (dir, envelopeCodec.records records) :=
    openLog_ok.2 ⟨hdir, hlog⟩
  rw [hlog, Option.getD_some] at hok
  have hreads (α : Type) (f : Bytes → Index → Except Error α) :=
    readIndexed_exec (f := f) hdir hlog hok
  refine ⟨horderly.logHolds,
    ⟨_, ensureIndex_of_stale hok.scan (by simp), fun α f => ⟨_, hreads α f⟩⟩,
    fun id env => ?_, fun n => ?_, fun n state hstate => ?_, fun env hchannel hverify hauth => ?_⟩
  · rw [← h.message rfl hok hscanned, readMessageById, hreads]
    constructor
    · rintro ⟨_, hexec⟩
      exact (Prod.mk.injEq .. ▸ hexec).1
    · exact fun hread => ⟨_, Prod.ext hread rfl⟩
  · by_cases hn : n = 0
    · exact ⟨d, by simp [hn, readChannelTail, List.rtake]⟩
    · obtain ⟨_, htail⟩ := horderly.tail hopen (fun _ => false) n
      rw [exec_readChannelTail_all hn, htail, lastVisible_eq]
      simp
  · by_cases hn : n = 0
    · exact ⟨d, by simp [hn, readChannelTail, List.rtake]⟩
    · obtain ⟨_, htail⟩ := horderly.tail hopen (fun id => state.tombstoned.contains id) n
      rw [exec_readChannelTail hstate hn, htail, lastVisible_eq]
      exact ⟨_, rfl⟩
  · have hexec := appendMessage_exec_allowed hdir hrec.ok hchannel hverify hauth
    have hid : indexContains (indexOf scanned 0) env.id = true ↔
        env.id ∈ records.map Envelope.id := by
      rw [indexContains_indexOf, ← hscanned]
      simp [eq_comm]
    by_cases hknown : env.id ∈ records.map Envelope.id
    · rw [if_pos (hid.2 hknown)] at hexec
      rw [if_pos hknown, hexec]
      exact ⟨_, rfl, _, getElem?_put_self _ _ _, by simp [Dir.indexed, hlog]⟩
    · rw [if_neg (hid.not.2 hknown)] at hexec
      rw [if_neg hknown, hexec]
      refine ⟨_, rfl, _, getElem?_put_self _ _ _, ?_⟩
      simp [Dir.appended, hlog, Codec.records, List.flatMap_append]

/-! ## A log that is torn -/

/-- The log is these records and then a piece of a line, and the index
describes no more than the records. -/
structure TornDir (records : List Envelope) (piece : Bytes) (dir : Dir) : Prop where
  log : dir.log = some (envelopeCodec.records records ++ piece)
  scans : ∃ scanned, scanVerifiedFile (envelopeCodec.records records) = .ok scanned
  open_ : piece ≠ [] ∧ (0x0a : UInt8) ∉ piece
  shorter : ∀ n, dir.index.logLen = some n → n ≤ (envelopeCodec.records records).length

theorem TornDir.ensure (h : TornDir records piece dir) :
    ensureIndex (envelopeCodec.records records ++ piece) dir.index =
      .error (truncatedAt (records.length + 1)) := by
  obtain ⟨scanned, hscan⟩ := h.scans
  obtain ⟨hne, hopen⟩ := h.open_
  have hpiece : 0 < piece.length := List.length_pos_of_ne_nil hne
  rw [ensureIndex, if_neg]
  · have hlast : piece.getLast? ≠ some 0x0a := fun hlast => hopen (List.mem_of_getLast? hlast)
    rw [scanVerifiedFile, envelopeCodec.splitLines_records] at hscan
    rw [scanVerifiedFile, splitLines_append (envelopeCodec.terminated_records records),
      splitLines_open hopen hne, envelopeCodec.splitLines_records, scanLines_torn hscan hlast,
      List.length_map, Nat.add_comm]
    rfl
  · rintro ⟨hlen, -⟩
    have hle := h.shorter _ hlen
    rw [List.length_append] at hle
    omega

/-- The records are there, in front of a torn line, and every call is
refused and changes nothing: a read through the index and an append at
the line, whatever its checks would say. -/
structure TornLog (chan : ChannelRef) (d : Datadir) (records : List Envelope) (piece : Bytes) :
    Prop where
  holds : HasDir chan.fullName
    (fun dir => dir.log = some (envelopeCodec.records records ++ piece)) d
  reads : ∀ (α : Type) (f : Bytes → Index → Except Error α),
    (readIndexed chan f).exec d = (.error (truncatedAt (records.length + 1)), d)
  appends : ∀ env, env.channel = chan.fullName → env.verify = .ok () →
    authorizeAppend chan env.sender d = .ok () →
    (appendMessage chan env).exec d = (.error (truncatedAt (records.length + 1)), d)
  refused : ∀ fault env, ∃ e, (appendMessageWith fault chan env).exec d = (.error e, d)

/-- **An append to a torn log** stops at the scan, if not before. -/
theorem exec_appendMessageWith_torn (fault : Option AppendFault) (env : Envelope)
    (hdir : d.channels[chan.fullName]? = some dir)
    (h : TornDir records piece dir) :
    ∃ e, (appendMessageWith fault chan env).exec d = (.error e, d) ∧
      (fault = none → env.channel = chan.fullName → env.verify = .ok () →
        authorizeAppend chan env.sender d = .ok () → e = truncatedAt (records.length + 1)) := by
  have htouch : { dir with log := some (envelopeCodec.records records ++ piece) } = dir := by
    rw [← h.log]
  rw [appendMessageWith, Op.exec_bailIf_bind]
  split
  · rename_i hchan
    exact ⟨_, rfl, fun _ h => absurd h hchan⟩
  rw [Op.exec_except_bind]
  cases hverify : env.verify with
  | error e => exact ⟨_, rfl, fun _ _ h => by cases h⟩
  | ok u =>
    simp only [context]
    rw [Op.exec_query_bind, openDir_ok.2 hdir]
    simp only [h.log, Option.getD_some]
    rw [Op.exec_bailIf_bind]
    split
    · rename_i hfault
      exact ⟨_, rfl, fun h => by rw [h] at hfault; cases hfault⟩
    rw [Op.exec_bind_of_ok (exec_modifyDir hdir), htouch, put_self hdir, Op.exec_bailIf_bind]
    split
    · rename_i hfault
      exact ⟨_, rfl, fun h => by rw [h] at hfault; cases hfault⟩
    rw [Op.exec_query_bind]
    cases hauth : authorizeAppend chan env.sender d with
    | error e => exact ⟨_, rfl, fun _ _ _ h => by cases h⟩
    | ok u =>
      simp only
      rw [Op.exec_except_bind, h.ensure]
      exact ⟨_, rfl, fun _ _ _ _ => rfl⟩

theorem TornDir.torn (hdir : HasDir chan.fullName (TornDir records piece) d) :
    TornLog chan d records piece := by
  obtain ⟨dir, hdir, h⟩ := hdir
  refine ⟨⟨dir, hdir, h.log⟩, fun α f => ?_, fun env hchannel hverify hauth => ?_,
    fun fault env => ?_⟩
  · rw [readIndexed, Op.exec_query_bind, openLog_ok.2 ⟨hdir, h.log⟩]
    simp only
    rw [Op.exec_except_bind, h.ensure]
  · obtain ⟨e, hexec, he⟩ := exec_appendMessageWith_torn none env hdir h
    rw [← appendMessageWith_none, hexec, he rfl hchannel hverify hauth]
  · obtain ⟨e, hexec, -⟩ := exec_appendMessageWith_torn fault env hdir h
    exact ⟨e, hexec⟩

/-! ## One step -/

/-- A piece of a record has no line feed. -/
theorem newline_not_mem_take {n : ℕ} (hn : n < (envelopeCodec.record env).length) :
    (0x0a : UInt8) ∉ (envelopeCodec.record env).take n := by
  rw [Codec.record, List.length_append, List.length_singleton] at hn
  rw [Codec.record, List.take_append_of_le_length (by omega)]
  exact fun hmem => envelopeCodec.newline_not_mem env (List.mem_of_mem_take hmem)

/-- The log with such a piece is torn. -/
theorem Recoverable.cut (h : Recoverable scanned dir) {n : ℕ}
    (hfile : dir.log.getD [] = envelopeCodec.records records) (hpos : 0 < n)
    (hlt : n < (envelopeCodec.record env).length) :
    TornDir records ((envelopeCodec.record env).take n)
      { dir.indexed scanned with
        log := some (dir.log.getD [] ++ (envelopeCodec.record env).take n) } where
  log := by rw [hfile]
  scans := ⟨scanned, hfile ▸ h.ok.scan⟩
  open_ := by
    refine ⟨fun hnil => ?_, newline_not_mem_take hlt⟩
    have hlength := congrArg List.length hnil
    rw [List.length_take, List.length_nil] at hlength
    omega
  shorter := by
    rintro _ ⟨⟩
    rw [hfile]

/-- What an append leaves of a sound log: the log, or the log with the
record, or, where the write was cut, a torn one. -/
inductive LeftBy (chan : ChannelRef) (fault : Option AppendFault) (env : Envelope)
    (records : List Envelope) (d' : Datadir) : Prop
  | same : SoundChannel chan d' records → LeftBy chan fault env records d'
  | added : SoundChannel chan d' (records ++ [env]) → LeftBy chan fault env records d'
  | torn (n : ℕ) : fault = some (.writing n) → 0 < n → n < (envelopeCodec.record env).length →
      HasDir chan.fullName (TornDir records ((envelopeCodec.record env).take n)) d' →
      LeftBy chan fault env records d'

theorem records_concat (records : List Envelope) (env : Envelope) :
    envelopeCodec.records (records ++ [env]) =
      envelopeCodec.records records ++ envelopeCodec.record env := by
  simp [Codec.records]

/-- **One append, from a sound log.** -/
theorem SoundChannel.append (h : SoundChannel chan d records) (fault : Option AppendFault)
    (env : Envelope) :
    LeftBy chan fault env records ((appendMessageWith fault chan env).exec d).2 := by
  obtain ⟨dir, hdir, hlog, scanned, hrec, rfl⟩ := h.dir
  have hfile : dir.log.getD [] = envelopeCodec.records (scanned.map (·.envelope)) := by
    rw [hlog, Option.getD_some]
  have hindexed : SoundLog (scanned.map (·.envelope)) (dir.indexed scanned) :=
    ⟨congrArg some hfile, scanned, hrec.indexed, rfl⟩
  rcases appendMessageWith_exec fault env hdir (by rw [hlog]; rfl) hrec.ok with
    ⟨-, e, hexec⟩ | ⟨hchannel, houtcome⟩
  · rw [hexec]
    exact .same h
  have hchannels : ∀ env' ∈ scanned.map (·.envelope) ++ [env], env'.channel = chan.fullName := by
    intro env' henv'
    rcases List.mem_append.1 henv' with hold | hnew
    · exact h.channel env' hold
    · rw [List.mem_singleton.1 hnew, hchannel]
  revert houtcome
  generalize (appendMessageWith fault chan env).exec d = result
  intro houtcome
  cases houtcome with
  | unchanged => exact .same h
  | indexed => exact .same ⟨⟨_, getElem?_put_self _ _ _, hindexed⟩, h.channel⟩
  | appended hverify hnew =>
    refine .added
      ⟨⟨_, getElem?_put_self _ _ _, ?_, _, hrec.appended hverify hnew, by simp [newRecord]⟩,
      hchannels⟩
    rw [records_concat, ← hfile]
    rfl
  | written n hn hverify hnew =>
    rcases Nat.eq_zero_or_pos n with rfl | hpos
    · -- nothing was stored
      refine .same ⟨⟨_, getElem?_put_self _ _ _, ?_, scanned, ?_, rfl⟩, h.channel⟩
      · rw [List.take_zero, List.append_nil, hfile]
      · rw [List.take_zero, List.append_nil]
        exact hrec.indexed
    rcases Nat.lt_or_ge n (envelopeCodec.record env).length with hlt | hge
    · exact .torn n (hn hlt) hpos hlt ⟨_, getElem?_put_self _ _ _, hrec.cut hfile hpos hlt⟩
    · -- all of it was
      rw [List.take_of_length_le hge]
      have hwritten := hrec.indexed.written hverify hnew
      refine .added ⟨⟨_, getElem?_put_self _ _ _, ?_, _, hwritten, by simp [newRecord]⟩, hchannels⟩
      rw [records_concat, ← hfile]

/-- An operation of the node, or an append that fails at its fault. -/
def FaultyStep (chan : ChannelRef) (d : Datadir) (l : StoreOp ⊕ AppendFault × Envelope)
    (d' : Datadir) : Prop :=
  match l with
  | .inl op => StoreStep chan d op d'
  | .inr (fault, env) => d' = ((appendMessageWith (some fault) chan env).exec d).2

/-- The step is an append whose write was cut, and left this piece of its
record. -/
def Cuts (l : StoreOp ⊕ AppendFault × Envelope) (piece : Bytes) : Prop :=
  ∃ n env, l = .inr (.writing n, env) ∧ 0 < n ∧ n < (envelopeCodec.record env).length ∧
    piece = (envelopeCodec.record env).take n

theorem SoundLog.other (h : SoundLog records dir) {dir' : Dir} (hlog : dir'.log = dir.log)
    (hindex : dir'.index = dir.index) : SoundLog records dir' := by
  obtain ⟨hfile, scanned, ⟨hok, hbounded⟩, hscanned⟩ := h
  exact ⟨hlog.trans hfile, scanned, ⟨by rwa [hlog, hindex], by rwa [hlog, hindex]⟩, hscanned⟩

/-- The operations that are no append leave it sound. -/
theorem keeps_soundLog {op : StoreOp} (hop : ∀ env, op ≠ .appendMessage env) :
    Op.Keeps (HasDir chan.fullName (SoundLog records)) (op.op chan) := by
  refine keeps_of_log_index (fun _ _ hlog hindex h => h.other hlog hindex) (fun _ h => h.map ?_)
    (fun dir log db hlog hensure h => ?_) hop
  · exact fun dir h => h.other (by rw [h.log]; rfl) rfl
  · have hsound : SoundLog records dir := There.of_some.1 h
    obtain ⟨scanned, hrec, hscanned⟩ := hsound.indexed
    have hensured := hrec.ok.ensure
    rw [hlog, Option.getD_some, hensure] at hensured
    obtain rfl := Except.ok.inj hensured
    have hindexed : dir.indexed scanned = { dir with index := indexOf scanned log.length } := by
      simp [Dir.indexed, hlog]
    exact There.of_some.2 ⟨hsound.log, scanned, hindexed ▸ hrec.indexed, hscanned⟩

/-- Other operations leave a torn log torn. -/
theorem keeps_tornDir {op : StoreOp} (hop : ∀ env, op ≠ .appendMessage env) :
    Op.Keeps (HasDir chan.fullName (TornDir records piece)) (op.op chan) := by
  have hother {dir dir' : Dir} (hlog : dir'.log = dir.log) (hindex : dir'.index = dir.index)
      (h : TornDir records piece dir) : TornDir records piece dir' :=
    ⟨hlog.trans h.log, h.scans, h.open_, hindex ▸ h.shorter⟩
  refine keeps_of_log_index (fun _ _ hlog hindex h => hother hlog hindex h) (fun _ h => h.map ?_)
    (fun dir log db hlog hensure h => ?_) hop
  · intro dir h
    have hfile : some (dir.log.getD []) = dir.log := by rw [h.log]; rfl
    exact hother hfile rfl h
  · -- the index of a torn log is not brought up to date
    have htorn : TornDir records piece dir := There.of_some.1 h
    obtain rfl := Option.some.inj (hlog.symm.trans htorn.log)
    cases hensure.symm.trans htorn.ensure

theorem exec_storeOp_appendMessage (env : Envelope) :
    StoreOp.exec chan (.appendMessage env) d = ((appendMessageWith none chan env).exec d).2 := by
  rw [appendMessageWith_none]
  exact exec_ignore _ _

/-- **A step keeps a log sound**, unless its write is cut. -/
theorem SoundChannel.step (h : SoundChannel chan d records) {l : StoreOp ⊕ AppendFault × Envelope}
    (hstep : FaultyStep chan d l d') :
    (∃ records', SoundChannel chan d' records') ∨
      ∃ piece, Cuts l piece ∧ HasDir chan.fullName (TornDir records piece) d' := by
  rcases l with op | ⟨fault, env⟩
  · refine .inl ?_
    obtain rfl : d' = op.exec chan d := hstep
    by_cases hop : ∃ env, op = .appendMessage env
    · obtain ⟨env, rfl⟩ := hop
      rw [exec_storeOp_appendMessage]
      rcases h.append none env with hsame | hadded | ⟨_, hfault, _⟩
      · exact ⟨_, hsame⟩
      · exact ⟨_, hadded⟩
      · cases hfault
    · exact ⟨records, keeps_soundLog (fun env henv => hop ⟨env, henv⟩) d h.dir, h.channel⟩
  · obtain rfl := hstep
    rcases h.append (some fault) env with hsame | hadded | ⟨n, hfault, hpos, hlt, htorn⟩
    · exact .inl ⟨_, hsame⟩
    · exact .inl ⟨_, hadded⟩
    · cases hfault
      exact .inr ⟨_, ⟨n, env, rfl, hpos, hlt, rfl⟩, htorn⟩

/-- **Every step leaves a torn log torn**, with what it holds. -/
theorem TornDir.step (h : HasDir chan.fullName (TornDir records piece) d)
    {l : StoreOp ⊕ AppendFault × Envelope} (hstep : FaultyStep chan d l d') :
    HasDir chan.fullName (TornDir records piece) d' := by
  rcases l with op | ⟨fault, env⟩
  · obtain rfl : d' = op.exec chan d := hstep
    by_cases hop : ∃ env, op = .appendMessage env
    · obtain ⟨env, rfl⟩ := hop
      obtain ⟨e, hexec⟩ := (TornDir.torn h).refused none env
      rw [exec_storeOp_appendMessage, hexec]
      exact h
    · exact keeps_tornDir (fun env henv => hop ⟨env, henv⟩) d h
  · obtain rfl := hstep
    obtain ⟨e, hexec⟩ := (TornDir.torn h).refused (some fault) env
    rw [hexec]
    exact h

theorem TornDir.run (h : HasDir chan.fullName (TornDir records piece) d)
    {later : List (StoreOp ⊕ AppendFault × Envelope)} (hrun : Run (FaultyStep chan) d later d') :
    HasDir chan.fullName (TornDir records piece) d' :=
  hrun.invariant (fun _ _ _ h hstep => TornDir.step h hstep) h

/-! ## Every run -/

/-- A channel that was just made is sound. -/
theorem EmptyChannel.sound (h : EmptyChannel chan d) (hlog : LogThere chan d) :
    SoundChannel chan d [] := by
  obtain ⟨dir, hdir, hempty, hindex⟩ := h
  obtain ⟨dir', hdir', hsome⟩ := hlog
  obtain rfl : dir = dir' := Option.some.inj (hdir.symm.trans hdir')
  obtain ⟨log, hfile⟩ := Option.isSome_iff_exists.1 hsome
  rw [hfile, Option.getD_some] at hempty
  subst hempty
  refine ⟨⟨dir, hdir, hfile, [], ⟨?_, by simp [hindex]⟩, rfl⟩, by simp⟩
  rw [hfile]
  exact ⟨rfl, ensureIndex_of_stale rfl (by simp [hindex]), .nil⟩

/-- **Every reached log is sound**, or torn by a write of the run. -/
theorem exists_soundChannel {steps : List (StoreOp ⊕ AppendFault × Envelope)}
    (hrun : Run (FaultyStep chan) d₀ steps d) (h₀ : EmptyChannel chan d₀)
    (hlog : LogThere chan d₀) :
    (∃ records, SoundChannel chan d records) ∨
      ∃ l ∈ steps, ∃ piece records, Cuts l piece ∧
        HasDir chan.fullName (TornDir records piece) d := by
  induction hrun with
  | nil => exact .inl ⟨[], h₀.sound hlog⟩
  | snoc _ hstep ih =>
    rcases ih with ⟨records, hsound⟩ | ⟨l, hl, piece, records, hcuts, htorn⟩
    · rcases hsound.step hstep with hsound' | ⟨piece, hcuts, htorn⟩
      · exact .inl hsound'
      · exact .inr ⟨_, by simp, piece, records, hcuts, htorn⟩
    · exact .inr ⟨l, by simp [hl], piece, records, hcuts, TornDir.step htorn hstep⟩

/-- **A failed append leaves a usable log, or a torn one.** In every run of
operations and of appends that fail somewhere, unless a write of the run
was cut, the log is usable; and an append that then fails leaves a usable
log of the records there were, or of those and its own, unless its write
is cut. Where a write is cut, the records there were stay in front of the
piece it stored, and whatever runs later, every read through the index and
every append is refused at the torn line and changes nothing. -/
theorem append_failure {steps : List (StoreOp ⊕ AppendFault × Envelope)}
    (hrun : Run (FaultyStep chan) d₀ steps d) (h₀ : EmptyChannel chan d₀)
    (hlog : LogThere chan d₀) :
    (∃ records, UsableLog chan d records ∧
        ∀ fault env e d', (appendMessageWith fault chan env).exec d = (.error e, d') →
          UsableLog chan d' records ∨ UsableLog chan d' (records ++ [env]) ∨
            ∃ n, fault = some (.writing n) ∧ 0 < n ∧ n < (envelopeCodec.record env).length ∧
              ∀ later d'', Run (FaultyStep chan) d' later d'' →
                TornLog chan d'' records ((envelopeCodec.record env).take n)) ∨
      ∃ l ∈ steps, ∃ piece records, Cuts l piece ∧ TornLog chan d records piece := by
  rcases exists_soundChannel hrun h₀ hlog with
    ⟨records, hsound⟩ | ⟨l, hl, piece, records, hcuts, htorn⟩
  · refine .inl ⟨records, hsound.usable, fun fault env e d' hexec => ?_⟩
    have hleft : LeftBy chan fault env records d' := by
      have := hsound.append fault env
      rwa [hexec] at this
    rcases hleft with hsame | hadded | ⟨n, hfault, hpos, hlt, htorn⟩
    · exact .inl hsame.usable
    · exact .inr (.inl hadded.usable)
    · exact .inr (.inr ⟨n, hfault, hpos, hlt, fun later d'' hlater =>
        TornDir.torn (TornDir.run htorn hlater)⟩)
  · exact .inr ⟨l, hl, piece, records, hcuts, TornDir.torn htorn⟩

/-- A torn log is not usable. -/
theorem TornLog.not_usable (h : TornLog chan d records piece) (records' : List Envelope) :
    ¬ UsableLog chan d records' := by
  intro husable
  obtain ⟨db, -, hreads⟩ := husable.reads
  obtain ⟨d', hexec⟩ := hreads Unit fun _ _ => .ok ()
  cases (h.reads Unit _).symm.trans hexec

/-- **A write that is cut** stores its piece, and the append fails. -/
theorem exec_appendMessageWith_writing (hdir : d.channels[chan.fullName]? = some dir)
    (hsome : dir.log.isSome = true) (hlog : LogOk (dir.log.getD []) dir.index scanned)
    (hchan : env.channel = chan.fullName) (hverify : env.verify = .ok ())
    (hauth : authorizeAppend chan env.sender d = .ok ())
    (hnew : ∀ item ∈ scanned, item.envelope.id ≠ env.id) (n : ℕ) :
    (appendMessageWith (some (.writing n)) chan env).exec d =
      (.error ["append log.ndjson"], d.put chan.fullName
        { dir.indexed scanned with
          log := some (dir.log.getD [] ++ (envelopeCodec.record env).take n) }) := by
  have htouch : { dir with log := some (dir.log.getD []) } = dir := by
    obtain ⟨log, hlog⟩ := Option.isSome_iff_exists.1 hsome
    rw [hlog, Option.getD_some, ← hlog]
  have hunknown : ¬ indexContains (indexOf scanned (dir.log.getD []).length) env.id = true := by
    rw [indexContains_indexOf]
    rintro ⟨item, hitem, hid⟩
    exact hnew item hitem hid
  have hcuts : (some (AppendFault.writing n)).any AppendFault.cuts = true := rfl
  rw [appendMessageWith, Op.exec_bailIf_bind, if_neg (not_not.2 hchan), Op.exec_except_bind,
    hverify]
  simp only [context]
  rw [Op.exec_query_bind, openDir_ok.2 hdir]
  simp only
  rw [Op.exec_bailIf_bind, if_neg (by simp), Op.exec_bind_of_ok (exec_modifyDir hdir), htouch,
    put_self hdir, Op.exec_bailIf_bind, if_neg (by simp), Op.exec_query_bind, hauth]
  simp only
  rw [Op.exec_except_bind, hlog.ensure]
  simp only
  rw [Op.exec_bailIf_bind, if_neg (by simp), Op.exec_bind_of_ok (exec_modifyDir hdir),
    Op.exec_bailIf_bind, if_neg (by simp), if_neg hunknown,
    Op.exec_bind_of_ok (exec_modifyDir (getElem?_put_self _ _ _)), put_put, Op.exec_bailIf_bind,
    if_pos hcuts]
  rfl

end Failure

section Torn

open Simulated

attribute [local instance] simulated

theorem sound_newNode : SoundChannel general newNode [] :=
  emptyChannel_newNode.sound ⟨newDir, getElem?_put_self _ _ _, rfl⟩

/-- The greeting is written up to its first byte. -/
theorem exec_cut_greeting : ∃ e d',
    (appendMessageWith (some (.writing 1)) general (envelope general 1 hello)).exec newNode =
        (.error e, d') ∧
      TornLog general d' [] ((envelopeCodec.record (envelope general 1 hello)).take 1) := by
  have hdir : newNode.channels[general.fullName]? = some newDir := getElem?_put_self _ _ _
  have hexec := exec_appendMessageWith_writing hdir rfl LogOk.empty rfl
    (verify_envelope general 1 hello)
    (authorizeAppend_put {} rfl rfl (envelope general 1 hello).sender) (by simp) 1
  refine ⟨_, _, hexec, TornDir.torn ⟨_, getElem?_put_self _ _ _, ?_⟩⟩
  have hrec : Recoverable [] newDir := ⟨LogOk.empty, by simp [newDir]⟩
  exact hrec.cut rfl (by omega) (by decide +kernel)

/-- **A write that is cut makes the log unusable.** -/
theorem cut_write_unusable : ∃ d e d', Run (FaultyStep general) newNode [] d ∧
    (appendMessageWith (some (.writing 1)) general (envelope general 1 hello)).exec d =
        (.error e, d') ∧
    UsableLog general d [] ∧ ∀ records, ¬ UsableLog general d' records := by
  obtain ⟨e, d', hexec, htorn⟩ := exec_cut_greeting
  exact ⟨newNode, e, d', .nil _, hexec, sound_newNode.usable, htorn.not_usable⟩

/-- The law where the greeting cannot be synchronized. -/
theorem append_failure_unsynchronized : ∃ records, UsableLog general newNode records ∧
    ∀ e d', (appendMessageWith (some .syncing) general (envelope general 1 hello)).exec newNode =
        (.error e, d') →
      UsableLog general d' records ∨
        UsableLog general d' (records ++ [envelope general 1 hello]) := by
  rcases append_failure (.nil newNode) emptyChannel_newNode
    ⟨newDir, getElem?_put_self _ _ _, rfl⟩ with ⟨records, husable, hfails⟩ | ⟨l, hl, _⟩
  · refine ⟨records, husable, fun e d' hexec => ?_⟩
    rcases hfails _ _ e d' hexec with hsame | hadded | ⟨n, hfault, -⟩
    · exact .inl hsame
    · exact .inr hadded
    · cases hfault
  · cases hl

end Torn

end Embernet
