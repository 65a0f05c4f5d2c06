import Embernet.Log.Invariant
import Mathlib.Data.List.Induction
import Mathlib.Data.List.Sort
/-!
# The tail — the last records, in their order

The index keeps where each record stands, and a tail is read by going
through the places from the last to the first. So what is read is the log
itself: the last records that are not hidden, in the order they were
written.
-/

set_option autoImplicit false

namespace Embernet

open Ndjson Primitives

section Tail

variable [Primitives] {chan : ChannelRef} {d : Datadir} {log : Bytes} {db : Index}
  {scanned : List ScannedEnvelope} {records : List Envelope}

/-! ## Where the records stand -/

/-- The bytes of a scanned record are a line of the file, which reads as
its envelope. -/
def Stands (log : Bytes) (lines : List Bytes) (item : ScannedEnvelope) : Prop :=
  ∃ line ∈ lines, (log.drop item.offset).take item.length = line ∧ line.length = item.length ∧
    line.getLast? = some 0x0a ∧ readEnvelope (chomp line) = some item.envelope

/-- The scan says where it found what. -/
theorem stands_of_scanLines {n : ℕ} {before : Bytes} {lines : List Bytes}
    (h : scanLines n before.length lines = .ok scanned) :
    (∀ item ∈ scanned, before.length ≤ item.offset ∧
      Stands (before ++ lines.flatten) lines item) ∧
      scanned.Pairwise fun a b => a.offset < b.offset := by
  induction lines generalizing n before scanned with
  | nil =>
    cases h
    exact ⟨fun _ hitem => (nomatch hitem), .nil⟩
  | cons line lines ih =>
    obtain ⟨items, rest, ⟨hlast, hitems⟩, hrest, rfl⟩ := scanLines_cons_ok.1 h
    rw [← List.length_append] at hrest
    obtain ⟨hstands, hpairwise⟩ := ih hrest
    rw [List.append_assoc] at hstands
    have hpos : 0 < line.length := by
      rcases line with _ | ⟨b, line⟩
      · cases hlast
      · exact Nat.succ_pos _
    have hlater : ∀ item ∈ rest, before.length < item.offset := by
      intro item hitem
      have := (hstands item hitem).1
      rw [List.length_append] at this
      omega
    have hrests : ∀ item ∈ rest, before.length ≤ item.offset ∧
        Stands (before ++ (line :: lines).flatten) (line :: lines) item := by
      intro item hitem
      obtain ⟨line', hline', hstands'⟩ := (hstands item hitem).2
      exact ⟨(hlater item hitem).le, line', List.mem_cons_of_mem _ hline', hstands'⟩
    rcases hitems with ⟨-, rfl⟩ | ⟨-, env, hread, -, rfl⟩
    · exact ⟨hrests, hpairwise⟩
    · refine ⟨fun item hitem => ?_, List.pairwise_cons.2 ⟨hlater, hpairwise⟩⟩
      rcases List.mem_cons.1 hitem with rfl | hitem
      · refine ⟨le_rfl, line, List.mem_cons_self, ?_, rfl, hlast, hread⟩
        rw [List.drop_left, List.flatten_cons, List.take_left]
      · exact hrests item hitem

theorem stands_of_scan (h : scanVerifiedFile log = .ok scanned) :
    (∀ item ∈ scanned, Stands log (splitLines log) item) ∧
      scanned.Pairwise fun a b => a.offset < b.offset := by
  have hscan : scanLines 1 ([] : Bytes).length (splitLines log) = .ok scanned := h
  obtain ⟨hstands, hpairwise⟩ := stands_of_scanLines hscan
  rw [List.nil_append, flatten_splitLines] at hstands
  exact ⟨fun item hitem => (hstands item hitem).2, hpairwise⟩

/-! ## From the last to the first -/

/-- A record's entry in the index. -/
def ScannedEnvelope.location (item : ScannedEnvelope) : String × ℕ × ℕ :=
  (item.envelope.id, item.offset, item.length)

omit [Primitives] in
/-- The table has an entry for each record, where no two have one id. -/
theorem getElem?_messageTable (hnodup : (scanned.map (·.envelope.id)).Nodup) {id : String}
    {place : ℕ × ℕ} : (messageTable scanned)[id]? = some place ↔
      (id, place) ∈ scanned.map ScannedEnvelope.location := by
  induction scanned using List.reverseRecOn with
  | nil => simp [messageTable]
  | append_singleton init item ih =>
    rw [List.map_append, List.nodup_append] at hnodup
    rw [messageTable, List.foldl_append, List.foldl_cons, List.foldl_nil,
      Std.ExtTreeMap.getElem?_insert, List.map_append, List.mem_append, List.map_singleton,
      List.mem_singleton, ScannedEnvelope.location, Prod.mk.injEq]
    by_cases hid : item.envelope.id = id
    · have hnew : (id, place) ∉ init.map ScannedEnvelope.location := by
        intro hmem
        obtain ⟨item', hitem', hlocation⟩ := List.mem_map.1 hmem
        refine hnodup.2.2 _ (List.mem_map_of_mem hitem') _ (List.mem_map_of_mem
          (List.mem_singleton_self item)) ?_
        rw [hid]
        exact congrArg Prod.fst hlocation
      simp [hid, hnew, eq_comm]
    · rw [if_neg (by simpa using hid)]
      refine (ih hnodup.1).trans ?_
      simp [Ne.symm hid]

omit [Primitives] in
theorem toList_messageTable (hnodup : (scanned.map (·.envelope.id)).Nodup) :
    (messageTable scanned).toList.Perm (scanned.map ScannedEnvelope.location) := by
  have hkeys : (messageTable scanned).toList.Nodup :=
    Std.ExtTreeMap.distinct_keys_toList.imp fun hne heq => hne (by rw [heq]; exact Std.ReflCmp.compare_self)
  have hplaces : (scanned.map ScannedEnvelope.location).Nodup := by
    refine List.Nodup.of_map Prod.fst ?_
    rw [List.map_map]
    exact hnodup
  refine (List.perm_ext_iff_of_nodup hkeys hplaces).2 ?_
  rintro ⟨id, place⟩
  rw [Std.ExtTreeMap.mem_toList_iff_getElem?_eq_some, getElem?_messageTable hnodup]

omit [Primitives] in
/-- Sorted by their places, the last first, the entries are the records
turned around. -/
theorem newestFirst_eq (hnodup : (scanned.map (·.envelope.id)).Nodup)
    (hpairwise : scanned.Pairwise fun a b => a.offset < b.offset) :
    ((messageTable scanned).toList.insertionSort fun a b => b.2.1 ≤ a.2.1) =
      (scanned.map ScannedEnvelope.location).reverse := by
  have hperm := toList_messageTable hnodup
  have hsorted : (scanned.map ScannedEnvelope.location).reverse.Pairwise
      fun a b => b.2.1 ≤ a.2.1 := by
    rw [List.pairwise_reverse, List.pairwise_map]
    exact hpairwise.imp fun h => Nat.le_of_lt h
  -- no two records stand in one place
  have hplace : ∀ a ∈ scanned, ∀ b ∈ scanned, a.offset = b.offset → a = b := by
    have : (scanned.map (·.offset)).Nodup :=
      List.pairwise_map.2 (hpairwise.imp fun h => Nat.ne_of_lt h)
    exact fun a ha b hb hab => List.inj_on_of_nodup_map this ha hb hab
  have htrans : IsTrans (String × ℕ × ℕ) fun a b => b.2.1 ≤ a.2.1 :=
    ⟨fun _ _ _ hab hbc => hbc.trans hab⟩
  have htotal : Std.Total fun a b : String × ℕ × ℕ => b.2.1 ≤ a.2.1 :=
    ⟨fun a b => Nat.le_total b.2.1 a.2.1⟩
  refine List.Perm.eq_of_pairwise ?_ (List.pairwise_insertionSort _ _) hsorted
    (((List.perm_insertionSort _ _).trans hperm).trans (List.reverse_perm _).symm)
  intro a b ha hb hab hba
  rw [List.mem_insertionSort, hperm.mem_iff] at ha
  rw [List.mem_reverse] at hb
  obtain ⟨item, hitem, rfl⟩ := List.mem_map.1 ha
  obtain ⟨item', hitem', rfl⟩ := List.mem_map.1 hb
  rw [hplace item hitem item' hitem' (Nat.le_antisymm hba hab)]

/-! ## What is read -/

/-- The last `n` of the records that are not hidden. -/
def lastVisible (hidden : String → Bool) (n : ℕ) (records : List Envelope) : List Envelope :=
  ((records.filter fun env => !hidden env.id).reverse.take n).reverse

/-- The loop reads the records that are not hidden, until there are
enough. -/
theorem readTail_eq {hidden : String → Bool} {n : ℕ}
    (hread : ∀ item ∈ scanned,
      readIndexedEnvelope log chan item.envelope.id item.offset item.length = .ok item.envelope) :
    readTail log chan hidden n (scanned.map ScannedEnvelope.location) =
      .ok (((scanned.map (·.envelope)).filter fun env => !hidden env.id).take n) := by
  induction scanned generalizing n with
  | nil => cases n <;> rfl
  | cons item rest ih =>
    have hrest : ∀ item ∈ rest, readIndexedEnvelope log chan item.envelope.id item.offset
        item.length = .ok item.envelope := fun item hitem => hread item (List.mem_cons_of_mem _ hitem)
    rw [List.map_cons, List.map_cons]
    cases n with
    | zero => rfl
    | succ n =>
      rw [ScannedEnvelope.location, readTail]
      by_cases hhidden : hidden item.envelope.id = true
      · rw [if_pos hhidden, ih hrest, List.filter_cons, if_neg (by simp [hhidden])]
      · rw [if_neg hhidden, hread item List.mem_cons_self, ih hrest, List.filter_cons,
          if_pos (by simp [hhidden]), List.take_succ_cons]
        rfl

/-- **A tail is the last of what was scanned**, where every record is
served. -/
theorem tailOf_eq {hidden : String → Bool} {n : ℕ} (hlog : LogOk log db scanned)
    (hread : ∀ item ∈ scanned,
      readIndexedEnvelope log chan item.envelope.id item.offset item.length = .ok item.envelope) :
    tailOf chan hidden n log (indexOf scanned log.length) =
      .ok (lastVisible hidden n (scanned.map (·.envelope))) := by
  have hfirst := newestFirst_eq hlog.nodup (stands_of_scan hlog.scan).2
  rw [tailOf, show (indexOf scanned log.length).messages = messageTable scanned from rfl]
  simp only [hfirst]
  rw [← List.map_reverse, readTail_eq fun item hitem => hread item (List.mem_reverse.1 hitem)]
  rw [lastVisible, List.map_reverse, List.filter_reverse]
  rfl

/-- In an orderly log every record is. -/
theorem readIndexedEnvelope_of_records (hscan : scanVerifiedFile log = .ok scanned)
    (hlog : log = envelopeCodec.records records) (hchannel : ∀ env ∈ records, env.channel = chan.fullName)
    {item : ScannedEnvelope} (hitem : item ∈ scanned) :
    readIndexedEnvelope log chan item.envelope.id item.offset item.length = .ok item.envelope := by
  obtain ⟨line, hline, htake, hlength, hlast, hread⟩ := (stands_of_scan hscan).1 item hitem
  rw [hlog, envelopeCodec.splitLines_records] at hline
  obtain ⟨env, henv, rfl⟩ := List.mem_map.1 hline
  rw [envelopeCodec.chomp_record] at hread
  obtain rfl : env = item.envelope :=
    Option.some.inj ((envelopeCodec.read_write env).symm.trans hread)
  have hdrop : (envelopeCodec.record item.envelope).dropLast = envelopeCodec.write item.envelope := by
    rw [Codec.record, List.dropLast_concat]
  rw [readIndexedEnvelope]
  simp only [bind_eq_ok, bailIf_eq_ok, orBail_eq_ok, context_eq_ok, pure_eq_ok, not_not, htake]
  exact ⟨(), hlength, (), hlast, _, hdrop ▸ hread, (), by simp [hchannel _ henv], (),
    verify_of_mem_scan hscan item hitem, rfl⟩

/-- **The tail of an orderly channel**: the last of its records. The read
leaves the index behind, and nothing else. -/
theorem Orderly.tail (h : Orderly chan d records) {dir : Dir}
    (hopen : openLog chan d = .ok (dir, log)) (hidden : String → Bool) (n : ℕ) :
    ∃ scanned, (readIndexed chan (tailOf chan hidden n)).exec d =
      (.ok (lastVisible hidden n records), d.put chan.fullName (dir.indexed scanned)) := by
  obtain ⟨dir', hdir', hlog, scanned, hok, rfl⟩ := h.dir
  obtain ⟨hdir, hsome⟩ := openLog_ok.1 hopen
  cases hdir.symm.trans hdir'
  rw [hsome, Option.getD_some] at hlog hok
  refine ⟨scanned, ?_⟩
  rw [readIndexed_exec hdir hsome hok, tailOf_eq hok fun item hitem =>
    readIndexedEnvelope_of_records hok.scan hlog h.channel hitem]

/-- Where there is no log file, there is no record. -/
theorem Orderly.records_of_openLog {e : Error} (h : Orderly chan d records)
    (hopen : openLog chan d = .error e) : records = [] := by
  obtain ⟨dir, hdir, hlog, -⟩ := h.dir
  cases hfile : dir.log with
  | some log => cases hopen.symm.trans (openLog_ok.2 ⟨hdir, hfile⟩)
  | none =>
    rw [hfile, Option.getD_none] at hlog
    rcases records with _ | ⟨env, records⟩
    · rfl
    · simp [Codec.record] at hlog

end Tail

end Embernet
