import Embernet.Log.Decryption
import Embernet.Model.Lenient
/-!
# Serving — what the scan indexes, read back by its place

Two readers go over one log. The scan takes it line by line and indexes
every envelope that verifies; a read takes the bytes of one record, and
asks that its envelope is of the channel besides. So a record of another
channel is indexed and never served, and every tail that comes to it
fails.
-/

set_option autoImplicit false

namespace Embernet

open Ndjson Primitives

/-! ## The last record of an id -/

/-- The last record that has an id: the one the index keeps the place
of. -/
def lastWith (scanned : List ScannedEnvelope) (id : String) : Option ScannedEnvelope :=
  scanned.reverse.find? (·.envelope.id == id)

section Serving

variable {chan : ChannelRef} {d : Datadir} {dir : Dir} {log : Bytes} {db : Index}
  {scanned : List ScannedEnvelope} {item : ScannedEnvelope} {id : String}

theorem lastWith_concat (scanned : List ScannedEnvelope) (item : ScannedEnvelope) (id : String) :
    lastWith (scanned ++ [item]) id =
      if item.envelope.id = id then some item else lastWith scanned id := by
  rw [lastWith, List.reverse_append, List.reverse_singleton, List.singleton_append,
    List.find?_cons]
  by_cases h : item.envelope.id = id
  · simp [h]
  · rw [if_neg h, beq_false_of_ne h]
    rfl

theorem lastWith_eq_some (h : lastWith scanned id = some item) :
    item ∈ scanned ∧ item.envelope.id = id := by
  refine ⟨List.mem_reverse.1 (List.mem_of_find?_eq_some h), ?_⟩
  simpa using List.find?_some h

theorem exists_lastWith (h : ∃ item ∈ scanned, item.envelope.id = id) :
    ∃ item, lastWith scanned id = some item := by
  obtain ⟨item, hitem, hid⟩ := h
  rw [← Option.isSome_iff_exists, lastWith, List.find?_isSome]
  exact ⟨item, List.mem_reverse.2 hitem, by simpa using hid⟩

theorem getElem?_messageTable_lastWith (scanned : List ScannedEnvelope) (id : String) :
    (messageTable scanned)[id]? =
      (lastWith scanned id).map fun item => (item.offset, item.length) := by
  induction scanned using List.reverseRecOn with
  | nil => simp [messageTable, lastWith]
  | append_singleton init item ih =>
    rw [messageTable, List.foldl_append, List.foldl_cons, List.foldl_nil,
      Std.ExtTreeMap.getElem?_insert, lastWith_concat]
    by_cases hid : item.envelope.id = id
    · simp [hid]
    · rw [if_neg (by simpa using hid), if_neg hid]
      exact ih

/-! ## One record, read by its place -/

/-- What the scan takes off the end of a line and a read does not. -/
theorem dropLast_of_closed {line : Bytes} (h : line.getLast? = some 0x0a) :
    line.dropLast = chomp line ∨ line.dropLast = chomp line ++ [0x0d] := by
  rw [chomp, if_pos h]
  split
  · refine .inr ?_
    rename_i hcr
    obtain ⟨init, hinit⟩ := List.getLast?_eq_some_iff.1 hcr
    rw [hinit, List.dropLast_concat]
  · exact .inl rfl

variable [Primitives]

/-- **A record that was scanned is served to its own channel**, and to no
other. -/
theorem readIndexedEnvelope_of_scan (hskip : SkipsSpace readEnvelope)
    (hscan : scanVerifiedFile log = .ok scanned) (hitem : item ∈ scanned) {env : Envelope} :
    readIndexedEnvelope log chan item.envelope.id item.offset item.length = .ok env ↔
      env = item.envelope ∧ item.envelope.channel = chan.fullName := by
  obtain ⟨line, -, htake, hlength, hlast, hread⟩ := (stands_of_scan hscan).1 item hitem
  have hread' : readEnvelope line.dropLast = some item.envelope := by
    rcases dropLast_of_closed hlast with heq | heq
    · rwa [heq]
    · rw [heq]
      exact hskip.trailing _ _ _ rfl hread
  have hverify := verify_of_mem_scan hscan item hitem
  simp only [readIndexedEnvelope, bind_eq_ok, bailIf_eq_ok, orBail_eq_ok, context_eq_ok,
    pure_eq_ok, not_or, not_not, htake, hread']
  constructor
  · rintro ⟨_, -, _, -, env', henv', _, ⟨-, hchannel⟩, _, -, rfl⟩
    cases henv'
    exact ⟨rfl, hchannel⟩
  · rintro ⟨rfl, hchannel⟩
    exact ⟨(), hlength, (), hlast, _, rfl, (), ⟨rfl, hchannel⟩, (), hverify, rfl⟩

/-- A tail is read where each of its records is. -/
theorem exists_readTail {hidden : String → Bool} {locations : List (String × ℕ × ℕ)}
    (h : ∀ id offset length, (id, offset, length) ∈ locations →
      ∃ env, readIndexedEnvelope log chan id offset length = .ok env) (n : ℕ) :
    ∃ envs, readTail log chan hidden n locations = .ok envs := by
  induction locations generalizing n with
  | nil => exact ⟨[], by cases n <;> rfl⟩
  | cons location rest ih =>
    obtain ⟨id, offset, length⟩ := location
    have hrest := ih fun id offset length hmem => h id offset length (List.mem_cons_of_mem _ hmem)
    cases n with
    | zero => exact ⟨[], rfl⟩
    | succ n =>
      rw [readTail]
      by_cases hhidden : hidden id = true
      · rw [if_pos hhidden]
        exact hrest (n + 1)
      · obtain ⟨env, henv⟩ := h id offset length List.mem_cons_self
        obtain ⟨envs, henvs⟩ := hrest n
        rw [if_neg hhidden]
        exact ⟨env :: envs, by simp only [bind_eq_ok, pure_eq_ok]; exact ⟨_, henv, _, henvs, rfl⟩⟩

/-! ## A log after its index was rebuilt -/

/-- The channel's log scans, and its index is that of the scan. -/
structure Rebuilt (chan : ChannelRef) (d : Datadir) (log : Bytes)
    (scanned : List ScannedEnvelope) : Prop where
  scan : scanVerifiedFile log = .ok scanned
  opens : ∃ dir, openLog chan d = .ok (dir, log) ∧ dir.index = indexOf scanned log.length

/-- A read through it changes nothing. -/
theorem Rebuilt.exec {α : Type} (h : Rebuilt chan d log scanned)
    (f : Bytes → Index → Except Error α) :
    ∃ d', (readIndexed chan f).exec d = (f log (indexOf scanned log.length), d') := by
  obtain ⟨dir, hopen, hindex⟩ := h.opens
  obtain ⟨hdir, hlog⟩ := openLog_ok.1 hopen
  have hensure : ensureIndex log dir.index = .ok (indexOf scanned log.length) := by
    rw [hindex]
    exact ensureIndex_indexOf scanned
  exact ⟨_, readIndexed_exec_of_ensure hdir hlog hensure⟩

/-- **What is served of an id**: the envelope of its last record, if that is
of the channel. -/
theorem Rebuilt.readMessageById (h : Rebuilt chan d log scanned)
    (hskip : SkipsSpace readEnvelope) (hitem : lastWith scanned id = some item) {env : Envelope} :
    (∃ d', (Embernet.readMessageById chan id).exec d = (.ok env, d')) ↔
      env = item.envelope ∧ item.envelope.channel = chan.fullName := by
  obtain ⟨hmem, rfl⟩ := lastWith_eq_some hitem
  have htable : (indexOf scanned log.length).messages[item.envelope.id]? =
      some (item.offset, item.length) := by
    rw [indexOf, getElem?_messageTable_lastWith, hitem]
    rfl
  obtain ⟨d', hexec⟩ : ∃ d', (Embernet.readMessageById chan item.envelope.id).exec d = (_, d') :=
    h.exec _
  simp only [htable] at hexec
  rw [hexec, ← readIndexedEnvelope_of_scan hskip h.scan hmem]
  constructor
  · rintro ⟨_, heq⟩
    exact (Prod.mk.injEq _ _ _ _ ▸ heq).1
  · exact fun heq => ⟨d', Prod.ext heq rfl⟩

/-- Every tail is served where the last record of each id is of the
channel. -/
theorem Rebuilt.tail (h : Rebuilt chan d log scanned) (hskip : SkipsSpace readEnvelope)
    (hlast : ∀ id item, lastWith scanned id = some item → item.envelope.channel = chan.fullName)
    (hidden : String → Bool) (n : ℕ) :
    ∃ envs d', (readIndexed chan (tailOf chan hidden n)).exec d = (.ok envs, d') := by
  obtain ⟨d', hexec⟩ := h.exec (tailOf chan hidden n)
  obtain ⟨envs, henvs⟩ : ∃ envs, readTail log chan hidden n
      ((indexOf scanned log.length).messages.toList.insertionSort fun a b => b.2.1 ≤ a.2.1) =
        .ok envs := by
    refine exists_readTail (fun id offset length hmem => ?_) n
    -- each place is that of the last record of its id
    rw [List.mem_insertionSort, Std.ExtTreeMap.mem_toList_iff_getElem?_eq_some, indexOf,
      getElem?_messageTable_lastWith] at hmem
    obtain ⟨item, hitem, hplace⟩ := Option.map_eq_some_iff.1 hmem
    obtain ⟨hscanned, rfl⟩ := lastWith_eq_some hitem
    cases hplace
    exact ⟨_, (readIndexedEnvelope_of_scan hskip h.scan hscanned).2 ⟨rfl, hlast _ item hitem⟩⟩
  refine ⟨envs.reverse, d', ?_⟩
  rw [hexec, tailOf]
  simp only [henvs]
  rfl

/-- The index serves what it has: every id with the envelope of a record of
that id, and every tail. -/
structure IndexServes (chan : ChannelRef) (d : Datadir) (scanned : List ScannedEnvelope)
    (db : Index) :
    Prop where
  messages : ∀ id, indexContains db id = true → ∃ item ∈ scanned, item.envelope.id = id ∧
    ∃ d', (readMessageById chan id).exec d = (.ok item.envelope, d')
  wholeTails : ∀ n, ∃ envs d', (readChannelTail chan n true).exec d = (.ok envs, d')
  views : ∀ n state, moderationState chan d = .ok state →
    ∃ envs d', (readChannelTail chan n false).exec d = (.ok envs, d')

/-- **The index serves what the scan found exactly if the last record of
each id is of the channel.** Blank lines, the two kinds of line end, white
space around a record and records written twice make no difference. -/
theorem index_serves_iff (hskip : SkipsSpace readEnvelope)
    (hscan : scanVerifiedFile log = .ok scanned) (hdb : rebuildIndex scanned log.length = .ok db)
    (hopen : openLog chan d = .ok (dir, log)) (hindex : dir.index = db) :
    IndexServes chan d scanned db ↔
      ∀ id item, lastWith scanned id = some item → item.envelope.channel = chan.fullName := by
  obtain rfl := Except.ok.inj (hdb.symm.trans (rebuildIndex_eq (verify_of_mem_scan hscan) _))
  have hrebuilt : Rebuilt chan d log scanned := ⟨hscan, dir, hopen, hindex⟩
  constructor
  · intro h id item hitem
    obtain ⟨hmem, hid⟩ := lastWith_eq_some hitem
    obtain ⟨_, -, -, hread⟩ := h.messages id (indexContains_indexOf.2 ⟨item, hmem, hid⟩)
    exact ((hrebuilt.readMessageById hskip hitem).1 hread).2
  · intro h
    refine ⟨fun id hid => ?_, fun n => ?_, fun n state hstate => ?_⟩
    · obtain ⟨item, hitem⟩ := exists_lastWith (indexContains_indexOf.1 hid)
      obtain ⟨hmem, hitemid⟩ := lastWith_eq_some hitem
      exact ⟨item, hmem, hitemid,
        (hrebuilt.readMessageById hskip hitem).2 ⟨rfl, h id item hitem⟩⟩
    · by_cases hn : n = 0
      · exact ⟨[], d, by rw [readChannelTail, if_pos hn]; rfl⟩
      · rw [exec_readChannelTail_all hn]
        exact hrebuilt.tail hskip h _ n
    · by_cases hn : n = 0
      · exact ⟨[], d, by rw [readChannelTail, if_pos hn]; rfl⟩
      · rw [exec_readChannelTail hstate hn]
        exact hrebuilt.tail hskip h _ n

end Serving

/-! ## A record of another channel -/

section Misplaced

open Simulated

attribute [local instance] lenient

/-- Another channel. -/
def elsewhere : ChannelRef := ⟨"elsewhere", by decide⟩

theorem skipsSpace_lenient : SkipsSpace lenient.readEnvelope :=
  skipsSpace_readStripped fun _ => rfl

/-- A log with a greeting that was written for a channel. -/
noncomputable def greetingLog (chan : ChannelRef) : Bytes :=
  envelopeCodec.record (envelope chan 1 hello)

/-- What the scan finds in it. -/
noncomputable def greetingScan (chan : ChannelRef) : List ScannedEnvelope :=
  [newRecord [] (envelope chan 1 hello)]

theorem scan_greetingLog (chan : ChannelRef) :
    scanVerifiedFile (greetingLog chan) = .ok (greetingScan chan) := by
  have hscan := scan_append scanVerifiedFile_nil (verify_envelope chan 1 hello)
  rw [List.nil_append] at hscan
  exact hscan

/-- The channel `general` with that log, and the index rebuilt. -/
noncomputable def generalWith (chan : ChannelRef) : Dir :=
  { log := some (greetingLog chan), index := indexOf (greetingScan chan) (greetingLog chan).length }

/-- A node that serves the channel. -/
noncomputable def nodeServing (chan : ChannelRef) : Datadir :=
  ({} : Datadir).put general.fullName (generalWith chan)

theorem openLog_nodeServing (chan : ChannelRef) :
    openLog general (nodeServing chan) = .ok (generalWith chan, greetingLog chan) :=
  openLog_ok.2 ⟨getElem?_put_self _ _ _, rfl⟩

theorem lastWith_greetingScan (chan : ChannelRef) :
    lastWith (greetingScan chan) (envelope chan 1 hello).id =
      some (newRecord [] (envelope chan 1 hello)) := by
  simp [lastWith, greetingScan, newRecord]

/-- **A record of another channel is indexed, and never served.** -/
theorem misplaced_record_not_served :
    scanVerifiedFile (greetingLog elsewhere) = .ok (greetingScan elsewhere) ∧
      rebuildIndex (greetingScan elsewhere) (greetingLog elsewhere).length =
        .ok (generalWith elsewhere).index ∧
      openLog general (nodeServing elsewhere) = .ok (generalWith elsewhere, greetingLog elsewhere) ∧
      ¬ IndexServes general (nodeServing elsewhere) (greetingScan elsewhere)
        (generalWith elsewhere).index := by
  have hscan := scan_greetingLog elsewhere
  have hopen := openLog_nodeServing elsewhere
  refine ⟨hscan, rebuildIndex_eq (verify_of_mem_scan hscan) _, hopen, fun h => ?_⟩
  have hrebuilt : Rebuilt general (nodeServing elsewhere) (greetingLog elsewhere)
      (greetingScan elsewhere) :=
    ⟨hscan, _, hopen, rfl⟩
  have hindexed :
      indexContains (generalWith elsewhere).index (envelope elsewhere 1 hello).id = true :=
    indexContains_indexOf.2 ⟨_, List.mem_singleton_self _, rfl⟩
  obtain ⟨_, -, -, hread⟩ := h.messages _ hindexed
  have hchannel :=
    ((hrebuilt.readMessageById skipsSpace_lenient (lastWith_greetingScan elsewhere)).1 hread).2
  revert hchannel
  decide +kernel

/-! ### White space in a log -/

/-- A record behind a space, with a carriage return before the line's
end. -/
noncomputable def spacedRecord (env : Envelope) : Bytes :=
  0x20 :: (envelopeCodec.write env ++ [0x0d])

theorem lineRecord_spacedRecord {env : Envelope} (offset : ℕ) (h : env.verify = .ok ()) :
    lineRecord offset (spacedRecord env ++ [0x0a])
      [⟨env, offset, (spacedRecord env ++ [0x0a]).length⟩] := by
  have hchomp : Ndjson.chomp (spacedRecord env ++ [0x0a]) = [0x20] ++ envelopeCodec.write env := by
    have hreturn : (spacedRecord env).getLast? = some 0x0d := by
      rw [spacedRecord, ← List.cons_append, List.getLast?_concat]
    rw [Ndjson.chomp, if_pos (by simp), List.dropLast_concat, if_pos hreturn, spacedRecord,
      ← List.cons_append, List.dropLast_concat]
    rfl
  obtain ⟨-, hrecord⟩ := lineRecord_record offset h
  rw [envelopeCodec.chomp_record] at hrecord
  refine ⟨by simp, .inr ⟨?_, env, ?_, h, rfl⟩⟩
  · rw [hchomp, List.all_append]
    rcases hrecord with ⟨-, hnone⟩ | ⟨hvisible, -⟩
    · cases hnone
    · rw [hvisible, Bool.and_false]
  · rw [hchomp]
    exact skipsSpace_lenient.leading _ _ _ rfl (envelopeCodec.read_write env)

/-- A record with space around it, a blank line, and another record. -/
noncomputable def spacedLog : Bytes :=
  spacedRecord (envelope general 1 hello) ++ [0x0a] ++ [0x09, 0x0a] ++
    envelopeCodec.record (envelope general 2 reminder)

/-- What the scan finds in it. -/
noncomputable def spacedScan : List ScannedEnvelope :=
  [⟨envelope general 1 hello, 0, (spacedRecord (envelope general 1 hello) ++ [0x0a]).length⟩,
    newRecord (spacedRecord (envelope general 1 hello) ++ [0x0a] ++ [0x09, 0x0a])
      (envelope general 2 reminder)]

theorem scan_spacedLog : scanVerifiedFile spacedLog = .ok spacedScan := by
  have hnewline : (0x0a : UInt8) ∉ spacedRecord (envelope general 1 hello) := by
    simpa [spacedRecord] using envelopeCodec.newline_not_mem (envelope general 1 hello)
  have hfirst := scan_append_line scanVerifiedFile_nil hnewline
    (lineRecord_spacedRecord 0 (verify_envelope general 1 hello))
  have hblank := scan_append_line hfirst (by decide : (0x0a : UInt8) ∉ [0x09])
    ⟨rfl, .inl ⟨rfl, rfl⟩⟩
  exact scan_append hblank (verify_envelope general 2 reminder)

/-- The channel with that log, and the index rebuilt. -/
noncomputable def spacedDir : Dir :=
  { log := some spacedLog, index := indexOf spacedScan spacedLog.length }

/-- The law for the log with white space: both records are of the
channel. -/
theorem index_serves_iff_spaced :
    rebuildIndex spacedScan spacedLog.length = .ok spacedDir.index ∧
      IndexServes general (({} : Datadir).put general.fullName spacedDir) spacedScan
        spacedDir.index := by
  have hdb := rebuildIndex_eq (verify_of_mem_scan scan_spacedLog) spacedLog.length
  have hopen : openLog general (({} : Datadir).put general.fullName spacedDir) =
      .ok (spacedDir, spacedLog) := openLog_ok.2 ⟨getElem?_put_self _ _ _, rfl⟩
  refine ⟨hdb, (index_serves_iff skipsSpace_lenient scan_spacedLog hdb hopen rfl).2 ?_⟩
  intro id item hitem
  rcases List.mem_pair.1 (lastWith_eq_some hitem).1 with rfl | rfl
  · rfl
  · rfl

end Misplaced

end Embernet
