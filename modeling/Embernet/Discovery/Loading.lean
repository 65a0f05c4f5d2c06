import Embernet.Lib.Keyed
import Embernet.Discovery.Pins
import Embernet.Model.Decoding
/-!
# Loading — a list of peers, in whatever order it is stored

The loader merges the entries of `peers.json` one by one, and each branch
of it depends on which entry of an address came first. What it returns
does not: it is the merge of the entries as a set, in the order of the
addresses, or an error where an entry is invalid or two disagree.
-/

set_option autoImplicit false

namespace Embernet

open Keyed

/-! ## The file -/

section File

open Json (asObj asStr asOptStr required defaulted)

/-- A record, its key left out where there is none. -/
def PeerRecord.toJson (r : PeerRecord) : Json :=
  .obj (("url", .str r.url) :: (r.publicKey.map fun key => ("public_key", Json.str key)).toList)

/-- A text, or a record. -/
def StoredPeer.toJson : StoredPeer → Json
  | .legacy url => .str url
  | .record r => r.toJson

/-- What is written to the file. -/
def PeerConfig.toJson (c : PeerConfig) : Json :=
  .obj [("version", .num c.version), ("peers", .arr (c.peers.map StoredPeer.toJson))]

/-- The key may be missing. -/
def PeerRecord.ofJson (value : Json) : Option PeerRecord := do
  let fields ← asObj value
  let url ← required fields "url" asStr
  let publicKey ← defaulted fields "public_key" asOptStr none
  pure { url, publicKey }

/-- The union has no tag: its variants are tried in order. -/
def StoredPeer.ofJson (value : Json) : Option StoredPeer :=
  match asStr value with
  | some url => some (.legacy url)
  | none => (PeerRecord.ofJson value).map .record

/-- What is read of it. -/
def PeerConfig.ofJson (value : Json) : Option PeerConfig := do
  let fields ← asObj value
  let version ← required fields "version" asU32
  let peers ← required fields "peers" fun
    | .arr values => values.mapM StoredPeer.ofJson
    | _ => none
  pure { version := version.toNat, peers }

/-- The file that holds a value. -/
def PeerConfig.file (value : Json) : JsonFile PeerConfig :=
  match PeerConfig.ofJson value with
  | some config => .value config
  | none => .malformed

theorem StoredPeer.ofJson_toJson (s : StoredPeer) : ofJson s.toJson = some s := by
  rcases s with url | ⟨url, _ | key⟩ <;> rfl

theorem PeerConfig.ofJson_toJson {c : PeerConfig} (h : c.version < 2 ^ 32) :
    ofJson c.toJson = some c := by
  have hversion : asU32 (.num c.version) = some (UInt32.ofNat c.version) := by
    have := asU32_num (UInt32.ofNat c.version)
    rwa [UInt32.toNat_ofNat_of_lt' h] at this
  have hpeers : (c.peers.map StoredPeer.toJson).mapM StoredPeer.ofJson = some c.peers := by
    induction c.peers with
    | nil => rfl
    | cons s peers ih =>
      rw [List.map_cons, List.mapM_cons, ih, StoredPeer.ofJson_toJson]
      rfl
  simp only [ofJson, Option.bind_eq_bind, Option.bind_eq_some_iff]
  refine ⟨_, rfl, _, hversion, _, hpeers, ?_⟩
  rw [UInt32.toNat_ofNat_of_lt' h]
  rfl

/-- **What is written is read.** -/
theorem PeerConfig.file_toJson {c : PeerConfig} (h : c.version < 2 ^ 32) :
    file c.toJson = .value c := by
  rw [file, ofJson_toJson h]

end File

/-! ## One entry -/

section Loading

variable {E : Set PeerRecord} {records records' pre post : List PeerRecord}
  {record existing : PeerRecord}

/-- Records that merge a set of entries. -/
abbrev MergedPeers (E : Set PeerRecord) (records : List PeerRecord) : Prop :=
  Merged PeerRecord.url PeerRecord.publicKey E records

/-- The entry of a known address is looked at where it stands. -/
theorem addRecord_known (hpre : record.url ∉ pre.map (·.url)) (hsame : existing.url = record.url) :
    addRecord record (pre ++ existing :: post) =
      if existing.publicKey = none then
        .ok (pre ++ { existing with publicKey := record.publicKey } :: post)
      else if record.publicKey ≠ none ∧ existing.publicKey ≠ record.publicKey then
        bail s!"peer {record.url} has conflicting pinned identities"
      else .ok (pre ++ existing :: post) := by
  induction pre with
  | nil =>
    rw [List.nil_append, addRecord, if_pos hsame]
    rfl
  | cons first pre ih =>
    rw [List.map_cons, List.mem_cons, not_or] at hpre
    rw [List.cons_append, addRecord, if_neg (Ne.symm hpre.1), ih hpre.2]
    split_ifs <;> rfl

theorem exists_known (h : (records.map (·.url)).Nodup) (hknown : record.url ∈ records.map (·.url)) :
    ∃ pre existing post, records = pre ++ existing :: post ∧ existing.url = record.url ∧
      record.url ∉ pre.map (·.url) := by
  obtain ⟨existing, hmem, hsame⟩ := List.mem_map.1 hknown
  obtain ⟨pre, post, rfl⟩ := List.append_of_mem hmem
  refine ⟨pre, existing, post, rfl, hsame, fun hpre => ?_⟩
  rw [List.map_append, List.nodup_append] at h
  exact h.2.2 _ hpre _ (by simp) hsame.symm

/-- **An entry is merged** with those before it. -/
theorem Merged.addRecord (h : MergedPeers E records)
    (hadd : addRecord record records = .ok records') :
    MergedPeers (insert record E) records' := by
  by_cases hknown : record.url ∈ records.map (·.url)
  · obtain ⟨pre, existing, post, rfl, hsame, hpre⟩ := exists_known h.nodup hknown
    rw [addRecord_known hpre hsame] at hadd
    split_ifs at hadd with hnone hconflict
    · cases hadd
      exact h.replace hsame hsame fun key => by simp [hnone]
    · cases hadd
    · cases hadd
      refine h.replace hsame hsame fun key => ?_
      rw [not_and_or, not_not, not_not] at hconflict
      rcases hconflict with hrecord | heq
      · simp [hrecord]
      · simp [heq]
  · rw [addRecord_new hknown] at hadd
    cases hadd
    exact h.concat hknown

/-- **And there is no conflict** where the entries agree. -/
theorem Merged.exists_addRecord (h : MergedPeers E records)
    (hagree : Agree PeerRecord.url PeerRecord.publicKey (insert record E)) :
    ∃ records', Embernet.addRecord record records = .ok records' := by
  by_cases hknown : record.url ∈ records.map (·.url)
  · obtain ⟨pre, existing, post, rfl, hsame, hpre⟩ := exists_known h.nodup hknown
    rw [addRecord_known hpre hsame]
    split_ifs with hnone hconflict
    · exact ⟨_, rfl⟩
    · obtain ⟨hpinned, hne⟩ := hconflict
      obtain ⟨key, hkey⟩ := Option.ne_none_iff_exists'.1 hpinned
      obtain ⟨key', hkey'⟩ := Option.ne_none_iff_exists'.1 hnone
      have hmem : existing ∈ pre ++ existing :: post :=
        List.mem_append_right _ List.mem_cons_self
      obtain ⟨a, ha, haurl, hakey⟩ := (h.values existing hmem key').1 hkey'
      have hsameKey := hagree record (Set.mem_insert _ _) a (Set.mem_insert_of_mem _ ha)
        (hsame.symm.trans haurl.symm) key hkey key' hakey
      rw [hkey, hkey', hsameKey] at hne
      exact absurd rfl hne
    · exact ⟨_, rfl⟩
  · exact ⟨_, addRecord_new hknown⟩

/-! ## The loop -/

variable [Urls] {peers peers' stored : List StoredPeer}

/-- The entries of a list, in their normal form. -/
def entries (peers : List StoredPeer) : Set PeerRecord :=
  {r | ∃ s ∈ peers, normalizeRecord s = .ok r}

theorem entries_cons {s : StoredPeer} (h : normalizeRecord s = .ok record) :
    E ∪ entries (s :: stored) = insert record E ∪ entries stored := by
  have hcons : entries (s :: stored) = insert record (entries stored) := by
    ext r
    simp only [entries, List.mem_cons, Set.mem_ofPred_eq, Set.mem_insert_iff]
    constructor
    · rintro ⟨s', rfl | hs', hr⟩
      · exact .inl (Except.ok.inj (hr.symm.trans h))
      · exact .inr ⟨s', hs', hr⟩
    · rintro (rfl | ⟨s', hs', hr⟩)
      · exact ⟨s, .inl rfl, h⟩
      · exact ⟨s', .inr hs', hr⟩
  rw [hcons, Set.union_insert, Set.insert_union]

/-- What the loop returns merges its entries, all of them valid. -/
theorem Merged.foldlM (h : MergedPeers E records)
    (hfold : stored.foldlM takeRecord records = .ok records') :
    MergedPeers (E ∪ entries stored) records' ∧ ∀ s ∈ stored, ∃ r, normalizeRecord s = .ok r := by
  induction stored generalizing E records with
  | nil =>
    cases hfold
    simpa [entries] using h
  | cons s stored ih =>
    rw [List.foldlM_cons] at hfold
    obtain ⟨next, hnext, hrest⟩ := bind_eq_ok.1 hfold
    obtain ⟨record, hrecord, hadd⟩ := bind_eq_ok.1 hnext
    obtain ⟨hmerged, hvalid⟩ := ih (Merged.addRecord h hadd) hrest
    rw [entries_cons hrecord]
    exact ⟨hmerged, List.forall_mem_cons.2 ⟨⟨record, hrecord⟩, hvalid⟩⟩

/-- And it returns where they are valid and agree. -/
theorem Merged.exists_foldlM (h : MergedPeers E records)
    (hvalid : ∀ s ∈ stored, ∃ r, normalizeRecord s = .ok r)
    (hagree : Agree PeerRecord.url PeerRecord.publicKey (E ∪ entries stored)) :
    ∃ records', stored.foldlM takeRecord records = .ok records' := by
  induction stored generalizing E records with
  | nil => exact ⟨records, rfl⟩
  | cons s stored ih =>
    obtain ⟨⟨record, hrecord⟩, hvalid⟩ := List.forall_mem_cons.1 hvalid
    rw [entries_cons hrecord] at hagree
    have hfirst : Agree PeerRecord.url PeerRecord.publicKey (insert record E) :=
      fun a ha b hb => hagree a (.inl ha) b (.inl hb)
    obtain ⟨next, hadd⟩ := Merged.exists_addRecord h hfirst
    obtain ⟨records', hrest⟩ := ih (Merged.addRecord h hadd) hvalid hagree
    refine ⟨records', ?_⟩
    have hnext : takeRecord records s = .ok next := by
      rw [takeRecord, hrecord]
      exact hadd
    rw [List.foldlM_cons, hnext]
    exact hrest

/-! ## The list -/

/-- A configuration of one of the two versions. -/
structure Supported (config : PeerConfig) : Prop where
  version : config.version = 1 ∨ config.version = 2

omit [Urls] in
theorem injective_record : Function.Injective fun r : PeerRecord => (r.url, r.publicKey) := by
  rintro ⟨url, key⟩ ⟨url', key'⟩ h
  cases h
  rfl

/-- **What is listed**: the merge of the entries, by address. -/
theorem listPeerRecords_value {config : PeerConfig} (h : Supported config) :
    listPeerRecords (.value config) = .ok records ↔
      ∃ listed, config.peers.foldlM takeRecord [] = .ok listed ∧
        records = byKey PeerRecord.url listed := by
  have hversion : ¬ (config.version ≠ 1 ∧ config.version ≠ 2) := by
    rcases h.version with h | h <;> simp [h]
  simp only [listPeerRecords, bind_eq_ok, bailIf_eq_ok, pure_eq_ok]
  constructor
  · rintro ⟨-, -, listed, hlisted, rfl⟩
    exact ⟨listed, hlisted, rfl⟩
  · rintro ⟨listed, hlisted, rfl⟩
    exact ⟨(), hversion, listed, hlisted, rfl⟩

/-- The records of a list that loads. -/
theorem merged_listPeerRecords {config : PeerConfig} (h : Supported config)
    (hlist : listPeerRecords (.value config) = .ok records) :
    MergedPeers (entries config.peers) records ∧
      records.Pairwise (fun a b => a.url < b.url) ∧
      ∀ s ∈ config.peers, ∃ r, normalizeRecord s = .ok r := by
  obtain ⟨listed, hlisted, rfl⟩ := (listPeerRecords_value h).1 hlist
  obtain ⟨hmerged, hvalid⟩ := Merged.foldlM merged_nil hlisted
  rw [Set.empty_union] at hmerged
  exact ⟨hmerged.byKey, byKey_pairwise hmerged.nodup, hvalid⟩

/-- Two entries of one address with different keys. -/
def Conflict (peers : List StoredPeer) : Prop :=
  ∃ url key key', key ≠ key' ∧ ⟨url, some key⟩ ∈ entries peers ∧ ⟨url, some key'⟩ ∈ entries peers

theorem agree_entries :
    Agree PeerRecord.url PeerRecord.publicKey (entries peers) ↔ ¬ Conflict peers := by
  constructor
  · rintro hagree ⟨url, key, key', hne, hkey, hkey'⟩
    exact hne (hagree _ hkey _ hkey' rfl _ rfl _ rfl)
  · rintro hnone ⟨url, pin⟩ ha ⟨url', pin'⟩ hb rfl key rfl key' rfl
    by_contra hne
    exact hnone ⟨url, key, key', hne, ha, hb⟩

/-- **When a list loads.** -/
theorem exists_listPeerRecords {config : PeerConfig} (h : Supported config) :
    (∃ records, listPeerRecords (.value config) = .ok records) ↔
      (∀ s ∈ config.peers, ∃ r, normalizeRecord s = .ok r) ∧ ¬ Conflict config.peers := by
  rw [← agree_entries]
  constructor
  · rintro ⟨records, hlist⟩
    obtain ⟨hmerged, -, hvalid⟩ := merged_listPeerRecords h hlist
    exact ⟨hvalid, hmerged.agree⟩
  · rintro ⟨hvalid, hagree⟩
    rw [← Set.empty_union (entries _)] at hagree
    obtain ⟨listed, hlisted⟩ := Merged.exists_foldlM merged_nil hvalid hagree
    exact ⟨_, (listPeerRecords_value h).2 ⟨listed, hlisted, rfl⟩⟩

omit [Urls] in
theorem exists_error_iff {α : Type} {x : Except Error α} : (∃ e, x = .error e) ↔ ¬ ∃ a, x = .ok a := by
  cases x <;> simp

theorem entries_perm (h : peers'.Perm peers) : entries peers' = entries peers := by
  ext r
  exact exists_congr fun s => and_congr_left fun _ => h.mem_iff

/-- **A stored list in another order loads alike.** -/
theorem listPeerRecords_perm {version : ℕ} (h : Supported ⟨version, peers⟩)
    (hperm : peers'.Perm peers) :
    (listPeerRecords (.value ⟨version, peers'⟩)).toOption =
      (listPeerRecords (.value ⟨version, peers⟩)).toOption := by
  have h' : Supported ⟨version, peers'⟩ := ⟨h.version⟩
  have hloads : (∃ records, listPeerRecords (.value ⟨version, peers'⟩) = .ok records) ↔
      ∃ records, listPeerRecords (.value ⟨version, peers⟩) = .ok records := by
    rw [exists_listPeerRecords h', exists_listPeerRecords h, Conflict, Conflict,
      entries_perm hperm]
    simp only [hperm.mem_iff]
  cases hlist : listPeerRecords (.value ⟨version, peers'⟩) with
  | error e =>
    cases hlist' : listPeerRecords (.value ⟨version, peers⟩) with
    | error e => rfl
    | ok records =>
      obtain ⟨_, hok⟩ := hloads.2 ⟨records, hlist'⟩
      cases hlist.symm.trans hok
  | ok records =>
    obtain ⟨records', hlist'⟩ := hloads.1 ⟨records, hlist⟩
    obtain ⟨hmerged, hordered, -⟩ := merged_listPeerRecords h' hlist
    obtain ⟨hmerged', hordered', -⟩ := merged_listPeerRecords h hlist'
    rw [entries_perm hperm] at hmerged
    have hsame := Merged.byKey_eq injective_record hmerged hmerged'
    rw [byKey_of_pairwise hordered, byKey_of_pairwise hordered'] at hsame
    rw [hlist', hsame]

/-- **Written, and loaded again**: the same records. -/
theorem listPeerRecords_written
    (hidem : ∀ value url, normalizePeerUrl value = .ok url → normalizePeerUrl url = .ok url)
    {file : JsonFile PeerConfig} (hlist : listPeerRecords file = .ok records)
    (hordered : records.Pairwise fun a b => a.url < b.url) :
    listPeerRecords (writePeers records) = .ok records := by
  have hnormal := normal_listPeerRecords hidem hlist
  obtain ⟨listed, hagain, hperm⟩ := listPeerRecords_writePeers hnormal
  have hversion : Supported ⟨2, (byKey PeerRecord.url records).map .record⟩ := ⟨.inr rfl⟩
  obtain ⟨-, hordered', -⟩ := merged_listPeerRecords hversion hagain
  have hsame := byKey_eq_of_perm hnormal.nodup hperm.symm
  rw [byKey_of_pairwise hordered, byKey_of_pairwise hordered'] at hsame
  rw [hagain, hsame]

/-- **Loading is independent of the order, and stable.** -/
theorem loading_stable
    (hidem : ∀ value url, normalizePeerUrl value = .ok url → normalizePeerUrl url = .ok url)
    {version : ℕ} (h : Supported ⟨version, peers⟩) :
    (∀ peers' : List StoredPeer, peers'.Perm peers →
      (listPeerRecords (.value ⟨version, peers'⟩)).toOption =
        (listPeerRecords (.value ⟨version, peers⟩)).toOption) ∧
    (∀ records, listPeerRecords (.value ⟨version, peers⟩) = .ok records →
      records.Pairwise (fun a b => a.url < b.url) ∧
      (∀ url, url ∈ records.map (·.url) ↔ ∃ r ∈ entries peers, r.url = url) ∧
      (∀ r ∈ records, ∀ key, r.publicKey = some key ↔ ⟨r.url, some key⟩ ∈ entries peers) ∧
      ∃ config, writePeers records = .value config ∧
        listPeerRecords (PeerConfig.file config.toJson) = .ok records) ∧
    ((∃ e, listPeerRecords (.value ⟨version, peers⟩) = .error e) ↔
      (∃ s ∈ peers, ∃ e, normalizeRecord s = .error e) ∨ Conflict peers) := by
  refine ⟨fun peers' hperm => listPeerRecords_perm h hperm, fun records hlist => ?_, ?_⟩
  · obtain ⟨hmerged, hordered, -⟩ := merged_listPeerRecords h hlist
    refine ⟨hordered, hmerged.keys, fun r hr key => ?_, ?_⟩
    · rw [← Option.mem_def, hmerged.values r hr]
      constructor
      · rintro ⟨⟨url, pin⟩, ha, rfl, rfl⟩
        exact ha
      · exact fun ha => ⟨_, ha, rfl, rfl⟩
    · refine ⟨_, rfl, ?_⟩
      rw [PeerConfig.file_toJson (by decide : (2 : ℕ) < 2 ^ 32)]
      exact listPeerRecords_written hidem hlist hordered
  · rw [exists_error_iff, exists_listPeerRecords h, not_and_or, not_not]
    simp only [exists_error_iff]
    push Not
    rfl

end Loading

/-! ### Two spellings of one host -/

section Spellings

attribute [local instance] hostUrls

/-- A peer of an old file, and the record of it that was pinned since. -/
def respelledPeers : List StoredPeer :=
  [.legacy "ws://peer", .record ⟨"ws://peer/sync", some pinnedKey⟩]

/-- They load as the record, in either order, and as it once written. -/
theorem loading_stable_respelled :
    listPeerRecords (.value ⟨1, respelledPeers⟩) = .ok [⟨"ws://peer/sync", some pinnedKey⟩] ∧
      (listPeerRecords (.value ⟨1, respelledPeers.reverse⟩)).toOption =
        some [⟨"ws://peer/sync", some pinnedKey⟩] ∧
      ∃ config, writePeers [⟨"ws://peer/sync", some pinnedKey⟩] = .value config ∧
        listPeerRecords (PeerConfig.file config.toJson) =
          .ok [⟨"ws://peer/sync", some pinnedKey⟩] := by
  have hlist : listPeerRecords (.value ⟨1, respelledPeers⟩) =
      .ok [⟨"ws://peer/sync", some pinnedKey⟩] := by
    decide +kernel
  obtain ⟨hperm, hlisted, -⟩ :=
    loading_stable normalizePeerUrl_hostUrls_idem (⟨.inl rfl⟩ : Supported ⟨1, respelledPeers⟩)
  refine ⟨hlist, ?_, (hlisted _ hlist).2.2.2⟩
  rw [hperm _ (List.reverse_perm _), hlist]
  rfl

end Spellings

end Embernet
