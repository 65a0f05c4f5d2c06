import Embernet.Lib.Duplex
import Embernet.Sync.Calls
/-!
# Readings — what a session reads of a log

Between a session's calls the node goes on writing, so each of its reads
sees the log of another moment. What it can count on is that a log only
grows: a read sees at least the records that were there when the session
began, and what it saw is there when the session ends.
-/

set_option autoImplicit false

namespace Embernet

open Primitives Blocks Duplex

variable [Primitives] {chan : ChannelRef} {d₀ d d' : Datadir} {S T : List Envelope}

/-- Logs keep what they begin with. -/
def growing : Drift Datadir where
  rel d d' := ∀ chan S, Held chan S d → Held chan S d'
  refl _ _ _ h := h
  trans h₁ h₂ chan S h := h₂ chan S (h₁ chan S h)

/-- One operation of the node, on any of its channels. -/
def Beside (d d' : Datadir) : Prop := ∃ l, NodeStep d l d'

theorem growing_of_beside (h : Beside d d') : growing.rel d d' := by
  obtain ⟨l, hstep⟩ := h
  exact fun _ _ hheld => hheld.node hstep

theorem Stored.grows {β : Type} {l : Call} {x : StoreM β} (hx : Stored chan β l x) (d : Datadir) :
    growing.rel d (x.exec d).2 :=
  fun _ _ h => hx.held h

/-- Of two beginnings of a log, the one that is all of it is the longer. -/
theorem Held.isPrefix (h : Held chan S d) (hT : Orderly chan d T) : S <+: T := by
  obtain ⟨later, hlater⟩ := h
  exact ⟨later, hlater.logHolds.unique hT.logHolds⟩

/-- The log was seen with `P`, some time between two states. -/
def Seen (chan : ChannelRef) (d₀ d : Datadir) (P : List Envelope → Prop) : Prop :=
  ∀ S, Held chan S d₀ → ∃ T, S <+: T ∧ Held chan T d ∧ P T

namespace Seen

variable {P Q : List Envelope → Prop}

theorem later (h : Seen chan d₀ d P) (hrel : growing.rel d d') : Seen chan d₀ d' P := by
  intro S hS
  obtain ⟨T, hpre, hT, hP⟩ := h S hS
  exact ⟨T, hpre, hrel chan T hT, hP⟩

/-- **A read that returned** was of the whole log at that moment. -/
theorem of_readIndexed {α : Type} {f : Bytes → Index → Except Error α} {a : α} {t u v : Datadir}
    (hrel : growing.rel d₀ t) (hexec : (readIndexed chan f).exec t = (.ok a, u))
    (hrel' : growing.rel t v)
    (hP : ∀ log scanned, scanVerifiedFile log = .ok scanned →
      f log (indexOf scanned log.length) = .ok a → P (scanned.map (·.envelope))) :
    Seen chan d₀ v P := by
  intro S hS
  obtain ⟨later, horderly⟩ := hrel chan S hS
  obtain ⟨dir, hdir, -, scanned, hlog, hscanned⟩ := horderly.dir
  refine ⟨S ++ later, List.prefix_append S later, hrel' chan _ horderly.held, ?_⟩
  rw [← hscanned]
  cases hfile : dir.log with
  | none =>
    -- a channel without a log cannot be read
    unfold readIndexed at hexec
    obtain ⟨⟨dir', log⟩, u', hopen, -⟩ := Op.exec_bind_ok.1 hexec
    rw [Op.exec_query] at hopen
    obtain ⟨hdir', hlog'⟩ := openLog_ok.1 (Prod.mk.inj hopen).1
    obtain rfl := Option.some.inj (hdir.symm.trans hdir')
    rw [hfile] at hlog'
    cases hlog'
  | some log =>
    rw [hfile, Option.getD_some] at hlog
    rw [readIndexed_exec hdir hfile hlog] at hexec
    exact hP log scanned hlog.scan (Prod.mk.inj hexec).1

end Seen

/-! ## The reads -/

/-- The ids of a log. -/
def logIds (T : List Envelope) : List Bytes := T.map Envelope.idBytes

theorem logIds_scanned (scanned : List ScannedEnvelope) :
    logIds (scanned.map (·.envelope)) = scanned.map (·.envelope.idBytes) := by
  simp [logIds]

/-- The hash that an inventory gives a bucket: that of its ids, and none
where it has none. -/
def bucketHash (ids : List Bytes) (i : ℕ) : Option String :=
  if bucket ids i = [] then none else some (hashHex (pack (bucket ids i)))

/-- The inventory is that of a log. -/
def Summed (T : List Envelope) (sums : List ChunkSummary) : Prop :=
  ∀ i, Responder.chunkHash sums i = bucketHash (logIds T) i

omit [Primitives] in
/-- Where the entries of an inventory are told apart by their buckets, a
bucket's hash is that of its entry. -/
theorem chunkHash_eq {sums : List ChunkSummary} {i : ℕ} {o : Option String}
    (hsome : ∀ sum ∈ sums, sum.index = i → o = some sum.hash)
    (hnone : (∀ sum ∈ sums, sum.index ≠ i) → o = none) : Responder.chunkHash sums i = o := by
  unfold Responder.chunkHash
  cases hfind : sums.reverse.find? (·.index == i) with
  | none =>
    refine (hnone fun sum hsum hindex => ?_).symm
    have := List.find?_eq_none.1 hfind sum (List.mem_reverse.2 hsum)
    simp [hindex] at this
  | some sum =>
    have hmem := List.mem_reverse.1 (List.mem_of_find?_eq_some hfind)
    have hindex := List.find?_some hfind
    exact (hsome sum hmem (by simpa using hindex)).symm

theorem summed_of_index {scanned : List ScannedEnvelope} {logLen : ℕ} {sums : List ChunkSummary}
    (h : indexSummaries (indexOf scanned logLen) = .ok sums) :
    Summed (scanned.map (·.envelope)) sums := by
  intro i
  rw [bucketHash, logIds_scanned]
  refine chunkHash_eq (fun sum hsum hindex => ?_) fun hnone => ?_
  · obtain ⟨j, hne, rfl⟩ := (mem_summaries h).1 hsum
    obtain rfl : j = i := hindex
    rw [if_neg hne]
  · by_contra hne
    rw [ite_eq_left_iff, not_forall] at hne
    obtain ⟨hne, -⟩ := hne
    exact hnone _ ((mem_summaries h).2 ⟨i, hne, rfl⟩) rfl

theorem seen_chunkSummaries {sums : List ChunkSummary} {t u v : Datadir}
    (hrel : growing.rel d₀ t) (hexec : (chunkSummaries chan).exec t = (.ok sums, u))
    (hrel' : growing.rel u v) : Seen chan d₀ v fun T => Summed T sums := by
  have hstored : Stored chan _ .chunkSummaries (chunkSummaries chan) :=
    .chunkSummaries
  have hcall := hstored.grows t
  rw [hexec] at hcall
  exact .of_readIndexed hrel hexec (growing.trans hcall hrel')
    fun _ _ _ h => summed_of_index h

/-- The list of a bucket is that of a log. -/
def Lists (T : List Envelope) (chunk : ChunkIds) : Prop :=
  chunk.ids = listed (logIds T) chunk.index

theorem seen_chunkIds {i : ℕ} {ids : List String} {t u v : Datadir} (hrel : growing.rel d₀ t)
    (hexec : (chunkIds chan i).exec t = (.ok ids, u)) (hrel' : growing.rel u v) :
    Seen chan d₀ v fun T => Lists T ⟨i, ids⟩ := by
  have hstored : Stored chan _ .chunkIds (chunkIds chan i) := .chunkIds i
  have hcall := hstored.grows t
  rw [hexec] at hcall
  refine .of_readIndexed hrel hexec (growing.trans hcall hrel') fun _ scanned _ h => ?_
  rw [indexChunkIds_indexOf] at h
  show ids = listed _ i
  rw [logIds_scanned]
  exact (Except.ok.inj h).symm

/-- The envelope that is read has the id that was asked for. -/
theorem id_of_readMessageById {id : String} {env : Envelope} {t u : Datadir}
    (hexec : (readMessageById chan id).exec t = (.ok env, u)) : env.id = id := by
  unfold readMessageById readIndexed at hexec
  obtain ⟨⟨dir, log⟩, u₁, -, hexec⟩ := Op.exec_bind_ok.1 hexec
  obtain ⟨db, u₂, -, hexec⟩ := Op.exec_bind_ok.1 hexec
  obtain ⟨_, u₃, -, hexec⟩ := Op.exec_bind_ok.1 hexec
  rw [Op.exec_except] at hexec
  have hread := (Prod.mk.inj hexec).1
  simp only [bind_eq_ok, orBail_eq_ok] at hread
  obtain ⟨⟨offset, length⟩, -, hread⟩ := hread
  simp only [readIndexedEnvelope, bind_eq_ok, bailIf_eq_ok, orBail_eq_ok, context_eq_ok,
    pure_eq_ok, not_or, not_not] at hread
  obtain ⟨_, -, _, -, env', -, _, ⟨hid, -⟩, _, -, rfl⟩ := hread
  exact hid

/-- **A message whose append returned** is in the log. -/
theorem seen_appendMessage {env : Envelope} {id : String} {t u v : Datadir}
    (hrel : growing.rel d₀ t) (hexec : (appendMessage chan env).exec t = (.ok id, u))
    (hrel' : growing.rel u v) : Seen chan d₀ v fun T => env.id ∈ T.map Envelope.id := by
  intro S hS
  obtain ⟨later, horderly⟩ := hrel chan S hS
  obtain ⟨dir, hdir, -, scanned, hlog, hscanned⟩ := horderly.dir
  have houtcome : AppendOutcome chan env t dir scanned _ := appendMessage_exec hdir hlog
  rw [hexec] at houtcome
  have hstep := horderly.append env
  rw [hexec] at hstep
  have hgrown : ∃ T, S <+: T ∧ Orderly chan u T ∧ env.id ∈ T.map Envelope.id := by
    cases houtcome with
    | known hverify hauth hknown =>
      obtain ⟨item, hitem, hid⟩ := hknown
      have hmem : env.id ∈ (S ++ later).map Envelope.id := by
        rw [← hscanned, List.map_map]
        exact List.mem_map.2 ⟨item, hitem, hid⟩
      rcases hstep with hsame | ⟨hmore, -⟩
      · exact ⟨_, List.prefix_append S later, hsame, hmem⟩
      · exact ⟨_, (List.prefix_append S later).trans (List.prefix_append _ _), hmore, by simp⟩
    | appended hverify hauth hnew =>
      rcases hstep with hsame | ⟨hmore, -⟩
      · -- the log would be the same, but a record was added
        have hlog' : LogHolds chan (t.put chan.fullName (dir.appended scanned env))
            ((S ++ later) ++ [env]) := by
          refine ⟨_, getElem?_put_self _ _ _, ?_⟩
          obtain ⟨dir', hdir', hrecords⟩ := horderly.logHolds
          obtain rfl : dir = dir' := Option.some.inj (hdir.symm.trans hdir')
          simp only [Dir.appended, Option.getD_some, hrecords, Ndjson.Codec.records,
            List.flatMap_append, List.flatMap_singleton]
        have := hsame.logHolds.unique hlog'
        simp at this
      · exact ⟨_, (List.prefix_append S later).trans (List.prefix_append _ _), hmore, by simp⟩
  obtain ⟨T, hpre, hT, hmem⟩ := hgrown
  exact ⟨T, hpre, hrel' chan T hT.held, hmem⟩

/-! ## What a bucket says -/

/-- A record's id is spelled in the list of its bucket. -/
theorem mem_of_lists {chunk : ChunkIds} (h : Lists T chunk) {b : Bytes} (hb : b ∈ logIds T)
    (hindex : bucketOf b = chunk.index) : hexEncode b ∈ chunk.ids := by
  rw [h]
  exact mem_listed.2 ⟨b, hb, hindex, rfl⟩

theorem of_mem_lists {chunk : ChunkIds} (h : Lists T chunk) {id : String} (hid : id ∈ chunk.ids) :
    ∃ b ∈ logIds T, bucketOf b = chunk.index ∧ hexEncode b = id := by
  rw [h] at hid
  exact mem_listed.1 hid

/-- What the buckets of a log hold, and of every log that it was before. -/
def pastBuckets (F : List Envelope) : Set Bytes :=
  {b | ∃ T i, T <+: F ∧ b = pack (bucket (logIds T) i)}

/-- **Equal hashes, the same ids**: where two inventories agree on a
bucket, the one log has the ids of the other there. -/
theorem mem_of_bucketHash_eq {F F' T T' : List Envelope}
    (hU : Set.InjOn blake3 (pastBuckets F ∪ pastBuckets F')) (hT : T <+: F) (hT' : T' <+: F')
    {b : Bytes} (hb : b ∈ logIds T)
    (heq : bucketHash (logIds T) (bucketOf b) = bucketHash (logIds T') (bucketOf b)) :
    b ∈ logIds T' := by
  have hmem : b ∈ bucket (logIds T) (bucketOf b) := mem_bucket.2 ⟨hb, rfl⟩
  have hlength (T : List Envelope) : ∀ id ∈ bucket (logIds T) (bucketOf b), id.length = 32 := by
    intro id hid
    obtain ⟨env, -, rfl⟩ := List.mem_map.1 (mem_bucket.1 hid).1
    exact env.length_idBytes
  unfold bucketHash at heq
  rw [if_neg (List.ne_nil_of_mem hmem)] at heq
  split at heq
  · cases heq
  · have hpack := hashHex_inj_on hU (.inl ⟨T, _, hT, rfl⟩) (.inr ⟨T', _, hT', rfl⟩)
      (Option.some.inj heq)
    have hperm := perm_of_pack_eq (n := 32) (by omega) (hlength T) (hlength T') hpack
    exact (mem_bucket.1 (hperm.mem_iff.1 hmem)).1

end Embernet
