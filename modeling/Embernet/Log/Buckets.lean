import Embernet.Log.Append
/-!
# Buckets — what a summary says of a log

Two nodes compare their logs by the summaries of the buckets: how many ids
are in each, and the hash of them, packed. For logs that have no id twice
the summaries say which ids a log has, and no more; a record appended twice
is listed twice and counted twice, though it is indexed once.
-/

set_option autoImplicit false

namespace Embernet

open Primitives Blocks

/-- The bytes that an id spells. -/
def idSpelled (id : String) : Bytes := (hexDecode id).getD []

/-- The lists of the buckets have each id once, in the bucket of its first
byte, and in order. -/
structure ListedOnce (ids : List String) (lists : ℕ → List String) : Prop where
  once : ((List.range merkleBucketCount).flatMap lists).Nodup
  all : ∀ id, id ∈ (List.range merkleBucketCount).flatMap lists ↔ id ∈ ids
  place : ∀ i, ∀ id ∈ lists i, bucketOf (idSpelled id) = i
  sorted : ∀ i, (lists i).Pairwise fun a b => idSpelled a ≤ idSpelled b

/-! ## Grouping -/

section Grouping

variable {ids ids' : List Bytes} {id : Bytes} {i : ℕ}

/-- A spelling is undone by reading it. -/
theorem idSpelled_hexEncode (b : Bytes) : idSpelled (hexEncode b) = b := by
  rw [idSpelled, hexDecode_hexEncode, Option.getD_some]

/-- A bucket has an id as often as the list has it. -/
theorem count_bucket (ids : List Bytes) (id : Bytes) :
    (bucket ids (bucketOf id)).count id = ids.count id :=
  List.count_filter (by simp)

/-- No id twice in a bucket is no id twice at all. -/
theorem nodup_bucket_iff : (∀ i, (bucket ids i).Nodup) ↔ ids.Nodup := by
  constructor
  · intro h
    refine List.nodup_iff_count_le_one.2 fun id => ?_
    rw [← count_bucket]
    exact List.nodup_iff_count_le_one.1 (h _) id
  · exact fun h i => h.filter _

/-- The ids of a bucket, as they are listed. -/
def listed (ids : List Bytes) (i : ℕ) : List String := (sort (bucket ids i)).map hexEncode

/-- What a bucket lists. -/
theorem mem_listed {s : String} :
    s ∈ listed ids i ↔ ∃ id ∈ ids, bucketOf id = i ∧ hexEncode id = s := by
  simp only [listed, List.mem_map, (sort_perm _).mem_iff, mem_bucket, and_assoc]

/-- Spelled out, the ids stay apart. -/
theorem nodup_listed_iff : (listed ids i).Nodup ↔ (bucket ids i).Nodup := by
  rw [listed, List.nodup_map_iff hexEncode_injective, (sort_perm _).nodup_iff]

/-- **The buckets list each id once exactly if none occurs twice.** -/
theorem listedOnce_iff : ListedOnce (ids.map hexEncode) (listed ids) ↔ ids.Nodup := by
  have hall (s : String) : s ∈ (List.range merkleBucketCount).flatMap (listed ids) ↔
      s ∈ ids.map hexEncode := by
    simp only [List.mem_flatMap, List.mem_range, mem_listed, List.mem_map]
    constructor
    · rintro ⟨_, -, id, hid, -, hs⟩
      exact ⟨id, hid, hs⟩
    · rintro ⟨id, hid, hs⟩
      exact ⟨bucketOf id, bucketOf_lt id, id, hid, rfl, hs⟩
  have hplace (i : ℕ) : ∀ s ∈ listed ids i, bucketOf (idSpelled s) = i := by
    intro s hs
    obtain ⟨id, -, hi, rfl⟩ := mem_listed.1 hs
    rwa [idSpelled_hexEncode]
  have hsorted (i : ℕ) : (listed ids i).Pairwise fun a b => idSpelled a ≤ idSpelled b := by
    rw [listed, List.pairwise_map]
    simp only [idSpelled_hexEncode]
    exact sort_pairwise _
  constructor
  · intro h
    refine nodup_bucket_iff.1 fun i => ?_
    by_cases hi : i < merkleBucketCount
    · exact nodup_listed_iff.1 ((List.nodup_flatMap.1 h.once).1 i (List.mem_range.2 hi))
    · -- there are no further buckets
      have hnil : bucket ids i = [] := List.eq_nil_iff_forall_not_mem.2 fun id hid =>
        hi ((mem_bucket.1 hid).2 ▸ bucketOf_lt id)
      rw [hnil]
      exact .nil
  · intro h
    refine ⟨List.nodup_flatMap.2 ⟨fun i _ => nodup_listed_iff.2 (nodup_bucket_iff.2 h i), ?_⟩,
      hall, hplace, hsorted⟩
    refine List.nodup_range.imp fun {i j} hij s hs hs' => hij ?_
    exact (hplace i s hs).symm.trans (hplace j s hs')

/-- Two lists of the same ids fill the same tables. -/
theorem chunkTable_eq_of_perm (h : ids.Perm ids') : chunkTable ids pack = chunkTable ids' pack := by
  refine Std.ExtTreeMap.ext_getElem? fun i => ?_
  have hbucket : (bucket ids i).Perm (bucket ids' i) := h.filter _
  have hnil : bucket ids i = [] ↔ bucket ids' i = [] :=
    ⟨fun h => (h ▸ hbucket).nil_eq.symm, fun h => (h ▸ hbucket).eq_nil⟩
  rw [getElem?_chunkTable, getElem?_chunkTable, pack_eq_of_perm hbucket]
  simp only [hnil]

/-- The buckets of one id, over and over. -/
theorem pack_bucket_replicate (n : ℕ) (id : Bytes) (i : ℕ) :
    pack (bucket (List.replicate n id) i) = [] ∨
      pack (bucket (List.replicate n id) i) = (List.replicate n id).flatten := by
  by_cases hi : bucketOf id = i
  · have hall : bucket (List.replicate n id) i = List.replicate n id :=
      List.filter_eq_self.2 fun id' hid' => by simp [List.eq_of_mem_replicate hid', hi]
    rw [hall, pack, List.perm_replicate.1 (sort_perm _)]
    exact .inr rfl
  · have hnone : bucket (List.replicate n id) i = [] :=
      List.filter_eq_nil_iff.2 fun id' hid' => by simp [List.eq_of_mem_replicate hid', hi]
    rw [hnone]
    exact .inl rfl

end Grouping

/-! ## Two logs -/

section Logs

variable [Primitives] {log log₁ log₂ : Bytes} {scanned s₁ s₂ : List ScannedEnvelope}
  {db db₁ db₂ : Index}

/-- The ids of the records. -/
def idsOf (scanned : List ScannedEnvelope) : List String := scanned.map (·.envelope.id)

/-- The ids of a scanned log, from their bytes. -/
theorem idsOf_eq (h : scanVerifiedFile log = .ok scanned) :
    idsOf scanned = (scanned.map (·.envelope.idBytes)).map hexEncode := by
  rw [idsOf, List.map_map]
  exact List.map_congr_left fun item hitem =>
    Envelope.id_eq_hexEncode (verify_of_mem_scan h item hitem)

/-- As texts they are apart as their bytes are. -/
theorem nodup_idsOf (h : scanVerifiedFile log = .ok scanned) :
    (idsOf scanned).Nodup ↔ (scanned.map (·.envelope.idBytes)).Nodup := by
  rw [idsOf_eq h, List.nodup_map_iff hexEncode_injective]

/-- An id is among them as its bytes are. -/
theorem mem_idsOf (h : scanVerifiedFile log = .ok scanned) {id : Bytes} :
    hexEncode id ∈ idsOf scanned ↔ id ∈ scanned.map (·.envelope.idBytes) := by
  rw [idsOf_eq h, List.mem_map_of_injective hexEncode_injective]

/-- What `chunk_ids` should list after a rebuild. -/
def ListsIds (scanned : List ScannedEnvelope) (db : Index) : Prop :=
  ∃ lists, (∀ i, indexChunkIds db i = .ok (lists i)) ∧ ListedOnce (idsOf scanned) lists

/-- The rebuilt index lists every id exactly if none is there twice. -/
theorem listsIds_iff (h : scanVerifiedFile log = .ok scanned) (logLen : ℕ) :
    ListsIds scanned (indexOf scanned logLen) ↔ (idsOf scanned).Nodup := by
  rw [nodup_idsOf h, ← listedOnce_iff, ← idsOf_eq h]
  constructor
  · rintro ⟨lists, hlists, honce⟩
    have : lists = listed (scanned.map (·.envelope.idBytes)) := funext fun i =>
      Except.ok.inj ((hlists i).symm.trans (indexChunkIds_indexOf i logLen))
    rwa [← this]
  · exact fun honce => ⟨_, fun i => indexChunkIds_indexOf i logLen, honce⟩

/-- The contents of the buckets of a log, which its summaries hash. -/
def packedBuckets (scanned : List ScannedEnvelope) : Set Bytes :=
  {b | ∃ i, b = pack (bucket (scanned.map (·.envelope.idBytes)) i)}

/-- An entry of the summaries is that of a bucket that is not empty. -/
theorem mem_summaries {logLen : ℕ} {sums : List ChunkSummary}
    (h : indexSummaries (indexOf scanned logLen) = .ok sums) {sum : ChunkSummary} :
    sum ∈ sums ↔ ∃ i, bucket (scanned.map (·.envelope.idBytes)) i ≠ [] ∧
      sum = { index := i
              count := (pack (bucket (scanned.map (·.envelope.idBytes)) i)).length / 32
              hash := hashHex (pack (bucket (scanned.map (·.envelope.idBytes)) i)) } := by
  obtain rfl := Except.ok.inj (h.symm.trans (indexSummaries_indexOf logLen))
  have hentry (i : ℕ) (members : Bytes) :
      (i, members) ∈ (indexOf scanned logLen).chunkMembers.toList ↔
        bucket (scanned.map (·.envelope.idBytes)) i ≠ [] ∧
          members = pack (bucket (scanned.map (·.envelope.idBytes)) i) := by
    rw [Std.ExtTreeMap.mem_toList_iff_getElem?_eq_some, indexOf, getElem?_chunkTable]
    by_cases hnil : bucket (scanned.map (·.envelope.idBytes)) i = []
    · rw [if_pos hnil]
      exact iff_of_false (by rintro ⟨⟩) fun h => h.1 hnil
    · rw [if_neg hnil, Option.some_inj]
      exact ⟨fun h => ⟨hnil, h.symm⟩, fun h => h.2.symm⟩
  rw [List.mem_map]
  constructor
  · rintro ⟨⟨i, members⟩, hmem, rfl⟩
    obtain ⟨hne, rfl⟩ := (hentry i members).1 hmem
    exact ⟨i, hne, rfl⟩
  · rintro ⟨i, hne, rfl⟩
    exact ⟨(i, _), (hentry i _).2 ⟨hne, rfl⟩, rfl⟩

/-- **Equal summaries, the same ids.** -/
theorem subset_of_summaries_eq (hU : Set.InjOn blake3 (packedBuckets s₁ ∪ packedBuckets s₂))
    {len₁ len₂ : ℕ} {sums : List ChunkSummary}
    (h₁ : indexSummaries (indexOf s₁ len₁) = .ok sums)
    (h₂ : indexSummaries (indexOf s₂ len₂) = .ok sums) :
    s₁.map (·.envelope.idBytes) ⊆ s₂.map (·.envelope.idBytes) := by
  intro id hid
  have hbucket : id ∈ bucket (s₁.map (·.envelope.idBytes)) (bucketOf id) :=
    mem_bucket.2 ⟨hid, rfl⟩
  have hsum := (mem_summaries h₁).2 ⟨bucketOf id, List.ne_nil_of_mem hbucket, rfl⟩
  obtain ⟨i, -, heq⟩ := (mem_summaries h₂).1 hsum
  simp only [ChunkSummary.mk.injEq] at heq
  obtain ⟨rfl, -, hhash⟩ := heq
  have hpack := hashHex_inj_on hU (.inl ⟨_, rfl⟩) (.inr ⟨_, rfl⟩) hhash
  have hperm := perm_of_pack_eq (n := 32) (by omega) (length_of_mem_bucket s₁ _)
    (length_of_mem_bucket s₂ _) hpack
  exact (mem_bucket.1 (hperm.mem_iff.1 hbucket)).1

/-- The logs have the same ids. -/
def SameIds (s₁ s₂ : List ScannedEnvelope) : Prop := ∀ id, id ∈ idsOf s₁ ↔ id ∈ idsOf s₂

/-- The two indexes have the same summaries. -/
def SameSummaries (db₁ db₂ : Index) : Prop :=
  ∃ sums, indexSummaries db₁ = .ok sums ∧ indexSummaries db₂ = .ok sums

/-- Two rebuilt indices tell the same exactly of the same ids. -/
theorem sameSummaries_iff (hscan₁ : scanVerifiedFile log₁ = .ok s₁)
    (hscan₂ : scanVerifiedFile log₂ = .ok s₂)
    (hU : Set.InjOn blake3 (packedBuckets s₁ ∪ packedBuckets s₂))
    (h₁ : (idsOf s₁).Nodup) (h₂ : (idsOf s₂).Nodup) (len₁ len₂ : ℕ) :
    SameSummaries (indexOf s₁ len₁) (indexOf s₂ len₂) ↔ SameIds s₁ s₂ := by
  constructor
  · rintro ⟨sums, hsums₁, hsums₂⟩ id
    have hsub := subset_of_summaries_eq hU hsums₁ hsums₂
    have hsub' := subset_of_summaries_eq (Set.union_comm _ _ ▸ hU) hsums₂ hsums₁
    rw [idsOf_eq hscan₁, idsOf_eq hscan₂]
    exact ⟨fun h => List.map_subset _ hsub h, fun h => List.map_subset _ hsub' h⟩
  · intro hsame
    have hperm : (s₁.map (·.envelope.idBytes)).Perm (s₂.map (·.envelope.idBytes)) := by
      refine (List.perm_ext_iff_of_nodup ((nodup_idsOf hscan₁).1 h₁)
        ((nodup_idsOf hscan₂).1 h₂)).2 fun id => ?_
      rw [← mem_idsOf hscan₁, ← mem_idsOf hscan₂]
      exact hsame _
    refine ⟨_, indexSummaries_indexOf len₁, ?_⟩
    rw [indexSummaries_indexOf, indexOf, indexOf, chunkTable_eq_of_perm hperm]

/-- **Bucket summaries are a function of the id set, for logs without
repetition.** After a rebuild of each of two logs, the buckets of both list
each id once, and their summaries are equal exactly if the logs have the
same ids: that is so exactly if neither log has an id twice. -/
theorem bucket_summaries_iff (hscan₁ : scanVerifiedFile log₁ = .ok s₁)
    (hscan₂ : scanVerifiedFile log₂ = .ok s₂)
    (hdb₁ : rebuildIndex s₁ log₁.length = .ok db₁) (hdb₂ : rebuildIndex s₂ log₂.length = .ok db₂)
    (hU : Set.InjOn blake3 (packedBuckets s₁ ∪ packedBuckets s₂)) :
    (ListsIds s₁ db₁ ∧ ListsIds s₂ db₂ ∧ (SameSummaries db₁ db₂ ↔ SameIds s₁ s₂)) ↔
      (idsOf s₁).Nodup ∧ (idsOf s₂).Nodup := by
  obtain rfl := Except.ok.inj (hdb₁.symm.trans (rebuildIndex_eq (verify_of_mem_scan hscan₁) _))
  obtain rfl := Except.ok.inj (hdb₂.symm.trans (rebuildIndex_eq (verify_of_mem_scan hscan₂) _))
  rw [listsIds_iff hscan₁, listsIds_iff hscan₂]
  constructor
  · exact fun ⟨h₁, h₂, _⟩ => ⟨h₁, h₂⟩
  · exact fun ⟨h₁, h₂⟩ => ⟨h₁, h₂, sameSummaries_iff hscan₁ hscan₂ hU h₁ h₂ _ _⟩

end Logs

/-! ## A record written twice -/

section Twice

open Simulated

attribute [local instance] simulated

/-- The greeting, and the greeting again behind it. -/
noncomputable def greetingOnce : List ScannedEnvelope := [newRecord [] (envelope general 1 hello)]

/-- The scan of a log that has the greeting twice. -/
noncomputable def greetingTwice : List ScannedEnvelope :=
  greetingOnce ++
    [newRecord (envelopeCodec.record (envelope general 1 hello)) (envelope general 1 hello)]

/-- The log of one record. -/
theorem scan_greetingOnce :
    scanVerifiedFile (envelopeCodec.records [envelope general 1 hello]) = .ok greetingOnce := by
  have hscan := scan_append scanVerifiedFile_nil (verify_envelope general 1 hello)
  rw [Ndjson.Codec.records, List.flatMap_singleton]
  exact hscan

/-- Two records, one behind the other. -/
noncomputable def scannedPair (first second : Message) : List ScannedEnvelope :=
  [newRecord [] (envelope general 1 first),
    newRecord (envelopeCodec.record (envelope general 1 first)) (envelope general 1 second)]

/-- The log of two records is scanned as the two. -/
theorem scan_scannedPair (first second : Message) :
    scanVerifiedFile (envelopeCodec.records
      [envelope general 1 first, envelope general 1 second]) = .ok (scannedPair first second) := by
  have hfirst := scan_append scanVerifiedFile_nil (verify_envelope general 1 first)
  have hsecond := scan_append hfirst (verify_envelope general 1 second)
  rw [Ndjson.Codec.records, List.flatMap_cons, List.flatMap_singleton]
  exact hsecond

/-- The log of one record twice is scanned as that record twice. -/
theorem scan_greetingTwice :
    scanVerifiedFile (envelopeCodec.records [envelope general 1 hello, envelope general 1 hello]) =
      .ok greetingTwice :=
  scan_scannedPair hello hello

/-- The bytes of the id. -/
def greetingId : Bytes := Simulated.hash hello.toJson.compact

/-- What the buckets of the two logs hold. -/
theorem packedBuckets_greetings :
    packedBuckets greetingOnce ∪ packedBuckets greetingTwice ⊆
      {[], greetingId, greetingId ++ greetingId} := by
  have honce (i : ℕ) : pack (bucket (greetingOnce.map (·.envelope.idBytes)) i) = [] ∨
      pack (bucket (greetingOnce.map (·.envelope.idBytes)) i) = greetingId :=
    (pack_bucket_replicate 1 greetingId i).imp id fun h => h.trans (List.append_nil _)
  have htwice (i : ℕ) : pack (bucket (greetingTwice.map (·.envelope.idBytes)) i) = [] ∨
      pack (bucket (greetingTwice.map (·.envelope.idBytes)) i) = greetingId ++ greetingId := by
    refine (pack_bucket_replicate 2 greetingId i).imp id fun h => h.trans ?_
    exact congrArg (greetingId ++ ·) (List.append_nil _)
  rintro b (hb | hb)
  · obtain ⟨i, hi⟩ := hb
    exact (honce i).elim (fun h => .inl (hi.trans h)) fun h => .inr (.inl (hi.trans h))
  · obtain ⟨i, hi⟩ := hb
    exact (htwice i).elim (fun h => .inl (hi.trans h)) fun h => .inr (.inr (hi.trans h))

/-- No two of them have one hash. -/
theorem injOn_greetings :
    Set.InjOn blake3 (packedBuckets greetingOnce ∪ packedBuckets greetingTwice) := by
  refine Set.InjOn.mono packedBuckets_greetings ?_
  have h₁ : Simulated.hash [] ≠ Simulated.hash greetingId := by decide +kernel
  have h₂ : Simulated.hash [] ≠ Simulated.hash (greetingId ++ greetingId) := by decide +kernel
  have h₃ : Simulated.hash greetingId ≠ Simulated.hash (greetingId ++ greetingId) := by
    decide +kernel
  rintro a (rfl | rfl | rfl) b (rfl | rfl | rfl) hab
  · rfl
  · exact absurd hab h₁
  · exact absurd hab h₂
  · exact absurd hab.symm h₁
  · rfl
  · exact absurd hab h₃
  · exact absurd hab.symm h₂
  · exact absurd hab.symm h₃
  · rfl

/-- **A record written twice is listed twice**: the log with the greeting
twice has the ids of the log with the greeting once, and other
summaries. -/
theorem repetition_changes_summaries :
    ∃ db₁ db₂,
      scanVerifiedFile (envelopeCodec.records [envelope general 1 hello]) = .ok greetingOnce ∧
      scanVerifiedFile
          (envelopeCodec.records [envelope general 1 hello, envelope general 1 hello]) =
        .ok greetingTwice ∧
      rebuildIndex greetingOnce
        (envelopeCodec.records [envelope general 1 hello]).length = .ok db₁ ∧
      rebuildIndex greetingTwice
        (envelopeCodec.records [envelope general 1 hello, envelope general 1 hello]).length =
        .ok db₂ ∧
      Set.InjOn blake3 (packedBuckets greetingOnce ∪ packedBuckets greetingTwice) ∧
      SameIds greetingOnce greetingTwice ∧ ¬ SameSummaries db₁ db₂ ∧
      ¬ ListsIds greetingTwice db₂ := by
  refine ⟨_, _, scan_greetingOnce, scan_greetingTwice,
    rebuildIndex_eq (verify_of_mem_scan scan_greetingOnce) _,
    rebuildIndex_eq (verify_of_mem_scan scan_greetingTwice) _, injOn_greetings, ?_, ?_, ?_⟩
  · intro id
    simp [idsOf, greetingOnce, greetingTwice, newRecord]
  · rintro ⟨sums, h₁, h₂⟩
    -- the bucket of the id counts one in the one log, and two in the other
    have hsum := (mem_summaries h₁).2 ⟨bucketOf greetingId, by decide +kernel, rfl⟩
    obtain ⟨i, -, heq⟩ := (mem_summaries h₂).1 hsum
    simp only [ChunkSummary.mk.injEq] at heq
    obtain ⟨rfl, hcount, -⟩ := heq
    revert hcount
    decide +kernel
  · rw [listsIds_iff scan_greetingTwice]
    simp [idsOf, greetingOnce, greetingTwice, newRecord]

/-- A message whose id falls into the bucket of the greeting's. -/
def note : Message := { hello with body := .text "note 128" }

/-- The id of the note. -/
def noteId : Bytes := Simulated.hash note.toJson.compact

/-- The note has another id. -/
theorem noteId_ne : greetingId ≠ noteId := by decide +kernel

/-- The note is in the bucket of the greeting. -/
theorem bucketOf_noteId : bucketOf noteId = bucketOf greetingId := by decide +kernel

/-- Each bucket of either log is empty, or has the two ids. -/
theorem packedBuckets_notes :
    packedBuckets (scannedPair hello note) ∪ packedBuckets (scannedPair note hello) ⊆
      {[], pack [greetingId, noteId]} := by
  have hbucket {ids : List Bytes} (hids : ids.Perm [greetingId, noteId]) (i : ℕ) :
      pack (bucket ids i) ∈ ({[], pack [greetingId, noteId]} : Set Bytes) := by
    have hmem {id : Bytes} (hid : id ∈ ids) : bucketOf id = bucketOf greetingId := by
      rcases List.mem_pair.1 (hids.mem_iff.1 hid) with rfl | rfl
      · rfl
      · exact bucketOf_noteId
    by_cases hi : bucketOf greetingId = i
    · have hall : bucket ids i = ids :=
        List.filter_eq_self.2 fun id hid => by simp [hmem hid, hi]
      rw [hall, pack_eq_of_perm hids]
      exact .inr rfl
    · have hnone : bucket ids i = [] :=
        List.filter_eq_nil_iff.2 fun id hid => by simp [hmem hid, hi]
      rw [hnone]
      exact .inl rfl
  rintro b (hb | hb)
  · obtain ⟨i, hi⟩ := hb
    rw [hi]
    exact hbucket (List.Perm.refl _) i
  · obtain ⟨i, hi⟩ := hb
    rw [hi]
    exact hbucket (List.Perm.swap _ _ _) i

/-- The two orders of the bucket have two hashes. -/
theorem injOn_notes : Set.InjOn blake3
    (packedBuckets (scannedPair hello note) ∪ packedBuckets (scannedPair note hello)) := by
  refine Set.InjOn.mono packedBuckets_notes ?_
  have hne : Simulated.hash [] ≠ Simulated.hash (pack [greetingId, noteId]) := by decide +kernel
  generalize pack [greetingId, noteId] = packed at hne ⊢
  rintro a (rfl | rfl) b (rfl | rfl) hab
  · rfl
  · exact absurd hab hne
  · exact absurd hab.symm hne
  · rfl

/-- The law for two logs with the same two records in different order, both
in one bucket. -/
theorem bucket_summaries_iff_notes : ∃ db₁ db₂,
    rebuildIndex (scannedPair hello note)
      (envelopeCodec.records [envelope general 1 hello, envelope general 1 note]).length = .ok db₁ ∧
    rebuildIndex (scannedPair note hello)
      (envelopeCodec.records [envelope general 1 note, envelope general 1 hello]).length = .ok db₂ ∧
    ListsIds (scannedPair hello note) db₁ ∧ ListsIds (scannedPair note hello) db₂ ∧
    SameSummaries db₁ db₂ := by
  have hscan₁ := scan_scannedPair hello note
  have hscan₂ := scan_scannedPair note hello
  have hdb₁ := rebuildIndex_eq (verify_of_mem_scan hscan₁)
    (envelopeCodec.records [envelope general 1 hello, envelope general 1 note]).length
  have hdb₂ := rebuildIndex_eq (verify_of_mem_scan hscan₂)
    (envelopeCodec.records [envelope general 1 note, envelope general 1 hello]).length
  have hne : (envelope general 1 hello).id ≠ (envelope general 1 note).id := by
    have hhello : (envelope general 1 hello).id = hexEncode greetingId := rfl
    have hnote : (envelope general 1 note).id = hexEncode noteId := rfl
    rw [hhello, hnote, ne_eq, hexEncode_inj]
    exact noteId_ne
  have hnodup₁ : (idsOf (scannedPair hello note)).Nodup := by
    simpa [idsOf, scannedPair, newRecord] using hne
  have hnodup₂ : (idsOf (scannedPair note hello)).Nodup := by
    simpa [idsOf, scannedPair, newRecord] using hne.symm
  obtain ⟨hlists₁, hlists₂, hsums⟩ :=
    (bucket_summaries_iff hscan₁ hscan₂ hdb₁ hdb₂ injOn_notes).2 ⟨hnodup₁, hnodup₂⟩
  refine ⟨_, _, hdb₁, hdb₂, hlists₁, hlists₂, hsums.2 fun id => ?_⟩
  simp [idsOf, scannedPair, newRecord, or_comm]

end Twice

end Embernet
