import Embernet.Log.Scan
/-!
# Indexing — one insertion is one rebuild

The index of a log is a function of what the scan finds, and inserting
the record just appended gives the index of the longer log. So wherever
the index is current it is the one a rebuild would make, and what is read
through it is read from the log: an id is contained exactly if a record
has it, a bucket lists the ids of that bucket, and its hash is that of
the packed ids.
-/

set_option autoImplicit false

namespace Embernet

open Primitives Blocks

variable [Primitives] {log : Bytes} {scanned : List ScannedEnvelope} {env : Envelope}
  {db db' : Index}

/-- The 32 bytes of a verified envelope's id. -/
def Envelope.idBytes (env : Envelope) : Bytes := blake3 env.msg.toJson.compact

theorem Envelope.length_idBytes (env : Envelope) : env.idBytes.length = 32 := length_blake3 _

theorem Envelope.id_eq_hexEncode (h : env.verify = .ok ()) : env.id = hexEncode env.idBytes :=
  Envelope.id_of_verify h

/-- The index of what a scan found. -/
def indexOf (scanned : List ScannedEnvelope) (logLen : ℕ) : Index where
  messages := messageTable scanned
  chunkMembers := chunkTable (scanned.map (·.envelope.idBytes)) pack
  chunkHashes := chunkTable (scanned.map (·.envelope.idBytes)) fun ids => blake3 (pack ids)
  logLen := some logLen
  messageCount := some scanned.length
  schema := some indexSchemaVersion

omit [Primitives] in
theorem mapM_eq_ok {α β ε : Type} {f : α → Except ε β} {g : α → β} {xs : List α}
    (h : ∀ x ∈ xs, f x = .ok (g x)) : xs.mapM f = .ok (xs.map g) := by
  induction xs with
  | nil => rfl
  | cons x xs ih =>
    rw [List.mapM_cons, h x (by simp), ih fun y hy => h y (List.mem_cons_of_mem x hy)]
    rfl

/-- **A rebuild gives the index of the scan.** -/
theorem rebuildIndex_eq (h : ∀ item ∈ scanned, item.envelope.verify = .ok ()) (logLen : ℕ) :
    rebuildIndex scanned logLen = .ok (indexOf scanned logLen) := by
  have hids : (scanned.mapM fun item => orBail ["hex::decode"] (hexDecode item.envelope.id)) =
      (.ok (scanned.map (·.envelope.idBytes)) : Except Error _) := mapM_eq_ok fun item hitem => by
    rw [Envelope.id_eq_hexEncode (h item hitem), hexDecode_hexEncode]
    rfl
  rw [rebuildIndex, hids]
  rfl

/-! ## Buckets -/

omit [Primitives] in
theorem mem_bucket {ids : List Bytes} {i : ℕ} {id : Bytes} :
    id ∈ bucket ids i ↔ id ∈ ids ∧ bucketOf id = i := by
  simp [bucket]

omit [Primitives] in
theorem bucketOf_lt (id : Bytes) : bucketOf id < merkleBucketCount := UInt8.toNat_lt _

omit [Primitives] in
theorem getElem?_foldl_insert {f : List Bytes → Bytes} {ids : List Bytes} (is : List ℕ)
    (table : Std.ExtTreeMap ℕ Bytes) (i : ℕ) :
    (is.foldl (fun table i =>
      if (bucket ids i).isEmpty then table else table.insert i (f (bucket ids i))) table)[i]? =
      if i ∈ is ∧ bucket ids i ≠ [] then some (f (bucket ids i)) else table[i]? := by
  induction is generalizing table with
  | nil => simp
  | cons j is ih =>
    rw [List.foldl_cons, ih]
    by_cases hi : i ∈ is ∧ bucket ids i ≠ []
    · rw [if_pos hi, if_pos ⟨List.mem_cons_of_mem j hi.1, hi.2⟩]
    · rw [if_neg hi]
      by_cases hj : bucket ids j = []
      · rw [hj, List.isEmpty_nil, if_pos rfl, if_neg]
        rintro ⟨hmem, hne⟩
        rcases List.mem_cons.1 hmem with rfl | hmem
        · exact hne hj
        · exact hi ⟨hmem, hne⟩
      · rw [if_neg (by simpa using hj), Std.ExtTreeMap.getElem?_insert]
        by_cases hij : j = i
        · subst hij
          simp [hj]
        · rw [if_neg (by simpa [compare_eq_iff_eq] using hij), if_neg]
          rintro ⟨hmem, hne⟩
          rcases List.mem_cons.1 hmem with rfl | hmem
          · exact hij rfl
          · exact hi ⟨hmem, hne⟩

omit [Primitives] in
/-- A bucket's entry, where it has a member. -/
theorem getElem?_chunkTable (ids : List Bytes) (f : List Bytes → Bytes) (i : ℕ) :
    (chunkTable ids f)[i]? = if bucket ids i = [] then none else some (f (bucket ids i)) := by
  rw [chunkTable, getElem?_foldl_insert]
  by_cases hi : bucket ids i = []
  · simp [hi]
  · obtain ⟨id, hid⟩ := List.exists_mem_of_ne_nil _ hi
    have hlt : i < merkleBucketCount := (mem_bucket.1 hid).2 ▸ bucketOf_lt id
    simp [hi, hlt]

omit [Primitives] in
theorem bucket_concat (ids : List Bytes) (id : Bytes) (i : ℕ) :
    bucket (ids ++ [id]) i = bucket ids i ++ if bucketOf id = i then [id] else [] := by
  rw [bucket, List.filter_append, ← bucket]
  by_cases h : bucketOf id = i <;> simp [h]

omit [Primitives] in
/-- One more id changes the entry of its bucket only. -/
theorem chunkTable_concat (ids : List Bytes) (id : Bytes) (f : List Bytes → Bytes) :
    chunkTable (ids ++ [id]) f =
      (chunkTable ids f).insert (bucketOf id) (f (bucket ids (bucketOf id) ++ [id])) := by
  refine Std.ExtTreeMap.ext_getElem? fun i => ?_
  rw [getElem?_chunkTable, Std.ExtTreeMap.getElem?_insert, getElem?_chunkTable, bucket_concat]
  by_cases h : bucketOf id = i
  · subst h
    simp
  · simp [h]

/-! ## One insertion -/

theorem length_of_mem_bucket (scanned : List ScannedEnvelope) (i : ℕ) :
    ∀ id ∈ bucket (scanned.map (·.envelope.idBytes)) i, id.length = 32 := by
  intro id hid
  obtain ⟨item, -, rfl⟩ := List.mem_map.1 (mem_bucket.1 hid).1
  exact item.envelope.length_idBytes

/-- The packed ids of a bucket, none where it has no entry. -/
theorem getD_chunkMembers (i : ℕ) (logLen : ℕ) :
    (indexOf scanned logLen).chunkMembers.getD i [] =
      pack (bucket (scanned.map (·.envelope.idBytes)) i) := by
  rw [Std.ExtTreeMap.getD_eq_getD_getElem?, indexOf, getElem?_chunkTable]
  by_cases h : bucket (scanned.map (·.envelope.idBytes)) i = []
  · rw [if_pos h, h]
    rfl
  · rw [if_neg h]
    rfl

/-- **Inserting the record just appended is indexing the longer log.** -/
theorem indexInsert_indexOf (henv : env.verify = .ok ()) (offset length logLen logLen' : ℕ) :
    indexInsert (indexOf scanned logLen) env.id offset length logLen' =
      .ok (indexOf (scanned ++ [⟨env, offset, length⟩]) logLen') := by
  have hid : hexDecode env.id = some env.idBytes := by
    rw [Envelope.id_eq_hexEncode henv, hexDecode_hexEncode]
  have hmembers := pack_concat (n := 32) (by omega)
    (length_of_mem_bucket scanned (bucketOf env.idBytes)) env.length_idBytes
  simp only [indexInsert, bind_eq_ok, orBail_eq_ok, bailIf_eq_ok, pure_eq_ok]
  refine ⟨_, hid, (), not_not.2 env.length_idBytes, ?_⟩
  rw [getD_chunkMembers, hmembers]
  simp only [indexOf, List.map_append, List.map_cons, List.map_nil, chunkTable_concat,
    List.length_append, List.length_singleton, messageTable, List.foldl_append, List.foldl_cons,
    List.foldl_nil, Option.getD_some]

/-! ## What the index says -/

/-- An id is contained exactly if a record has it. -/
theorem indexContains_indexOf {id : String} {logLen : ℕ} :
    indexContains (indexOf scanned logLen) id = true ↔
      ∃ item ∈ scanned, item.envelope.id = id := by
  suffices h : ∀ table : Std.ExtTreeMap String (ℕ × ℕ),
      (scanned.foldl (fun table item =>
        table.insert item.envelope.id (item.offset, item.length)) table).contains id = true ↔
        (∃ item ∈ scanned, item.envelope.id = id) ∨ table.contains id = true by
    simpa [indexContains, indexOf, messageTable] using h ∅
  induction scanned with
  | nil => simp
  | cons item rest ih =>
    intro table
    rw [List.foldl_cons, ih]
    simp only [List.mem_cons, exists_eq_or_imp, Std.ExtTreeMap.contains_insert, Bool.or_eq_true,
      beq_iff_eq, Std.LawfulEqCmp.compare_eq_iff_eq]
    exact or_left_comm.trans or_assoc.symm

/-- A bucket lists the ids that fall into it. -/
theorem indexChunkIds_indexOf (i logLen : ℕ) :
    indexChunkIds (indexOf scanned logLen) i =
      .ok ((Blocks.sort (bucket (scanned.map (·.envelope.idBytes)) i)).map hexEncode) := by
  rw [indexChunkIds, indexOf, getElem?_chunkTable]
  by_cases h : bucket (scanned.map (·.envelope.idBytes)) i = []
  · rw [if_pos h, h]
    rfl
  · have hlength := length_pack (length_of_mem_bucket scanned i)
    rw [if_neg h]
    simp only [bind_eq_ok, bailIf_eq_ok, pure_eq_ok]
    refine ⟨(), not_not.2 (by rw [hlength]; omega), ?_⟩
    rw [chunksExact_pack (by omega) (length_of_mem_bucket scanned i)]

/-- The indexed summaries: one for each bucket with a member. -/
theorem indexSummaries_indexOf (logLen : ℕ) :
    indexSummaries (indexOf scanned logLen) =
      .ok ((indexOf scanned logLen).chunkMembers.toList.map fun entry =>
        { index := entry.1, count := entry.2.length / 32, hash := hashHex entry.2 }) := by
  refine mapM_eq_ok fun entry hentry => ?_
  obtain ⟨i, members⟩ := entry
  have hmem := Std.ExtTreeMap.mem_toList_iff_getElem?_eq_some.1 hentry
  simp only [indexOf, getElem?_chunkTable] at hmem ⊢
  split at hmem
  · cases hmem
  · cases hmem
    rw [if_neg ‹_›]
    rfl

/-! ## Logs with an index that is current or stale -/

/-- A log that scans, no id twice in it, with an index that a read
through it would find to be that of the scan. -/
structure LogOk (log : Bytes) (db : Index) (scanned : List ScannedEnvelope) : Prop where
  scan : scanVerifiedFile log = .ok scanned
  ensure : ensureIndex log db = .ok (indexOf scanned log.length)
  nodup : (scanned.map (·.envelope.id)).Nodup

/-- An index that is out of date is as good as none. -/
theorem ensureIndex_of_stale (h : scanVerifiedFile log = .ok scanned)
    (hstale : ¬ (db.logLen = some log.length ∧ db.schema = some indexSchemaVersion)) :
    ensureIndex log db = .ok (indexOf scanned log.length) := by
  rw [ensureIndex, if_neg hstale, h]
  exact rebuildIndex_eq (verify_of_mem_scan h) log.length

theorem ensureIndex_indexOf (scanned : List ScannedEnvelope) :
    ensureIndex log (indexOf scanned log.length) = .ok (indexOf scanned log.length) := by
  rw [ensureIndex, if_pos ⟨rfl, rfl⟩]
  rfl

namespace LogOk

/-- The empty log, with no index yet. -/
theorem empty : LogOk [] {} [] where
  scan := rfl
  ensure := ensureIndex_of_stale rfl (by simp)
  nodup := .nil

variable (h : LogOk log db scanned)

include h

theorem ensured : LogOk log (indexOf scanned log.length) scanned where
  scan := h.scan
  ensure := ensureIndex_indexOf scanned
  nodup := h.nodup

/-- **An append keeps it**, where no record has the id. -/
theorem append (henv : env.verify = .ok ())
    (hnew : ∀ item ∈ scanned, item.envelope.id ≠ env.id) :
    LogOk (log ++ envelopeCodec.record env)
      (indexOf (scanned ++ [⟨env, log.length, (envelopeCodec.record env).length⟩])
        (log ++ envelopeCodec.record env).length)
      (scanned ++ [⟨env, log.length, (envelopeCodec.record env).length⟩]) where
  scan := scan_append h.scan henv
  ensure := ensureIndex_indexOf _
  nodup := by
    rw [List.map_append, List.nodup_append]
    refine ⟨h.nodup, by simp, ?_⟩
    intro id hid id' hid'
    obtain ⟨item, hitem, rfl⟩ := List.mem_map.1 hid
    obtain rfl : id' = env.id := by simpa using hid'
    exact hnew item hitem

end LogOk

end Embernet
