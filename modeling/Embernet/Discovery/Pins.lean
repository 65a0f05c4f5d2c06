import Embernet.Lib.Replay
import Embernet.Model.Peers
/-!
# Pins — what it takes to change one

What a node expects of an address is read off one entry: none, a record
with no key, or a record with one. Adding fills an entry, and a key once
there stays; only removal empties it. The loader merges spellings of one
address and refuses two keys for it, so that what is written is what is
read again.
-/

set_option autoImplicit false

namespace Embernet

/-! ## Normal forms -/

/-- The characters of a text that reads as hexadecimal. -/
theorem hexVal_isSome_of_hexDecodeChars {cs : List Char} {bytes : Bytes}
    (h : hexDecodeChars cs = some bytes) : ∀ c ∈ cs, (hexVal c).isSome := by
  induction cs using hexDecodeChars.induct generalizing bytes with
  | case1 => exact fun c hc => nomatch hc
  | case2 => cases h
  | case3 a b rest ih =>
    rw [hexDecodeChars] at h
    simp only [Option.bind_eq_bind, Option.bind_eq_some_iff, Option.pure_def] at h
    obtain ⟨hi, hhi, lo, hlo, bytes', hrest, -⟩ := h
    intro c hc
    rcases List.mem_cons.1 hc with rfl | hc
    · rw [hhi]; rfl
    · rcases List.mem_cons.1 hc with rfl | hc
      · rw [hlo]; rfl
      · exact ih hrest c hc

/-- No digit is a space. -/
theorem isWhitespace_of_hexVal {c : Char} (h : (hexVal c).isSome) : isWhitespace c = false := by
  rw [hexVal] at h
  simp only [isWhitespace]
  split_ifs at h with hdigit hlower hupper
  · simp; omega
  · simp; omega
  · simp; omega
  · cases h

/-- A text with no space at either end is left as it is. -/
theorem trim_of_forall {s : String} (h : ∀ c ∈ s.toList, isWhitespace c = false) : trim s = s := by
  have hdrop {cs : List Char} (hcs : ∀ c ∈ cs, isWhitespace c = false) :
      cs.dropWhile isWhitespace = cs := by
    cases cs with
    | nil => rfl
    | cons c cs => rw [List.dropWhile_cons, if_neg (by simp [hcs c])]
  rw [trim, hdrop h, hdrop (by simpa using h), List.reverse_reverse, String.ofList_toList]

theorem toAsciiLowercase_idem (s : String) :
    toAsciiLowercase (toAsciiLowercase s) = toAsciiLowercase s := by
  -- what a capital becomes is none
  have hchar (c : Char) :
      ¬ ('A' ≤ (if 'A' ≤ c ∧ c ≤ 'Z' then Char.ofNat (c.toNat + 32) else c) ∧
        (if 'A' ≤ c ∧ c ≤ 'Z' then Char.ofNat (c.toNat + 32) else c) ≤ 'Z') := by
    by_cases hupper : 'A' ≤ c ∧ c ≤ 'Z'
    · rw [if_pos hupper]
      rintro ⟨-, hle⟩
      have hlow : 65 ≤ c.toNat := hupper.1
      have hhigh : c.toNat ≤ 90 := hupper.2
      have hle : (Char.ofNat (c.toNat + 32)).toNat ≤ 90 := hle
      have hvalid : (c.toNat + 32).isValidChar := Or.inl (by omega)
      rw [Char.ofNat, dif_pos hvalid] at hle
      have hle : c.toNat + 32 ≤ 90 := hle
      omega
    · rwa [if_neg hupper]
  rw [toAsciiLowercase, toAsciiLowercase, String.toList_ofList, List.map_map]
  congr 1
  refine List.map_congr_left fun c _ => ?_
  exact if_neg (hchar c)

/-- **A key in its normal form stays there.** -/
theorem validatePinnedKey_idem {value key : String} (h : validatePinnedKey value = .ok key) :
    validatePinnedKey key = .ok key := by
  simp only [validatePinnedKey, bind_eq_ok, bailIf_eq_ok, orBail_eq_ok, pure_eq_ok] at h ⊢
  obtain ⟨bytes, hbytes, -, hlength, rfl⟩ := h
  have htrim : trim (toAsciiLowercase (trim value)) = toAsciiLowercase (trim value) :=
    trim_of_forall fun c hc => isWhitespace_of_hexVal (hexVal_isSome_of_hexDecodeChars hbytes c hc)
  rw [htrim, toAsciiLowercase_idem]
  exact ⟨bytes, hbytes, (), hlength, rfl⟩

section Pins

variable [Urls] {records records' : List PeerRecord} {record : PeerRecord} {url : String}
  {key : Option String}

theorem normalizeRecord_record :
    normalizeRecord (.record record) = .ok record ↔
      normalizePeerUrl record.url = .ok record.url ∧
        record.publicKey.mapM validatePinnedKey = .ok record.publicKey := by
  simp only [normalizeRecord, StoredPeer.toRecord, bind_eq_ok, pure_eq_ok]
  constructor
  · rintro ⟨url, hurl, key, hkey, rfl⟩
    exact ⟨hurl, hkey⟩
  · rintro ⟨hurl, hkey⟩
    exact ⟨_, hurl, _, hkey, rfl⟩

/-- A record that was brought to its normal form is in it, where addresses
have one. -/
theorem normalizeRecord_idem
    (hidem : ∀ value url, normalizePeerUrl value = .ok url → normalizePeerUrl url = .ok url)
    {stored : StoredPeer} (h : normalizeRecord stored = .ok record) :
    normalizeRecord (.record record) = .ok record := by
  simp only [normalizeRecord, bind_eq_ok, pure_eq_ok] at h
  obtain ⟨url, hurl, key, hkey, rfl⟩ := h
  refine normalizeRecord_record.2 ⟨hidem _ _ hurl, ?_⟩
  cases hstored : stored.toRecord.publicKey with
  | none =>
    rw [hstored] at hkey
    cases hkey
    rfl
  | some value =>
    rw [hstored, Option.mapM_some, map_eq_ok] at hkey
    obtain ⟨key, hkey, rfl⟩ := hkey
    exact map_eq_ok.2 ⟨key, validatePinnedKey_idem hkey, rfl⟩

/-! ## Entries -/

/-- What the records say of an address: nothing, or the key it is pinned
to, if any. -/
def entry (records : List PeerRecord) (url : String) : Option (Option String) :=
  (records.find? (·.url == url)).map (·.publicKey)

omit [Urls] in
theorem entry_cons : entry (record :: records) url =
    if record.url = url then some record.publicKey else entry records url := by
  by_cases h : record.url = url <;> simp [entry, h]

omit [Urls] in
theorem entry_isSome : (entry records url).isSome ↔ url ∈ records.map (·.url) := by
  simp [entry, List.find?_isSome]

omit [Urls] in
/-- The order of the records does not matter, where addresses are apart. -/
theorem entry_perm (hnodup : (records.map (·.url)).Nodup) (hperm : records'.Perm records) :
    entry records' url = entry records url := by
  have hnodup' : (records'.map (·.url)).Nodup := (hperm.map _).nodup_iff.2 hnodup
  cases hfind : records.find? (·.url == url) with
  | none =>
    have hnone : records'.find? (·.url == url) = none :=
      List.find?_eq_none.2 fun r hr => List.find?_eq_none.1 hfind r (hperm.subset hr)
    rw [entry, entry, hfind, hnone]
  | some r =>
    have hr : r ∈ records' := hperm.symm.subset (List.mem_of_find?_eq_some hfind)
    have hurl : r.url = url := by simpa using List.find?_some hfind
    cases hfind' : records'.find? (·.url == url) with
    | none =>
      have := List.find?_eq_none.1 hfind' r hr
      simp [hurl] at this
    | some r' =>
      have hurl' : r'.url = url := by simpa using List.find?_some hfind'
      obtain rfl := List.inj_on_of_nodup_map hnodup' hr (List.mem_of_find?_eq_some hfind')
        (hurl.trans hurl'.symm)
      rw [entry, entry, hfind, hfind']

omit [Urls] in
/-- **Adding fills the entry of the address**, with the key that is there
or else with the record's. -/
theorem entry_addRecord (h : addRecord record records = .ok records') :
    entry records' url =
      if url = record.url then some ((entry records url).join.or record.publicKey)
      else entry records url := by
  induction records generalizing records' with
  | nil =>
    cases h
    rw [entry_cons]
    by_cases hurl : url = record.url
    · rw [if_pos hurl, if_pos hurl.symm]
      rfl
    · rw [if_neg hurl, if_neg (Ne.symm hurl)]
  | cons existing rest ih =>
    rw [addRecord] at h
    split_ifs at h with hsame hnone hconflict
    · cases h
      simp only [entry_cons, hsame]
      by_cases hurl : url = record.url
      · simp [hurl, hnone]
      · simp [hurl, Ne.symm hurl]
    · cases h
    · cases h
      rw [entry_cons]
      by_cases hurl : url = record.url
      · -- the key that is there stays
        obtain ⟨key, hkey⟩ := Option.ne_none_iff_exists'.1 hnone
        simp [hurl, hsame, hkey]
      · rw [if_neg hurl]
    · obtain ⟨rest', hrest, hcons⟩ := bind_eq_ok.1 h
      cases hcons
      simp only [entry_cons, ih hrest]
      by_cases hurl : url = record.url
      · simp [hurl, hsame]
      · simp [hurl]

omit [Urls] in
/-- Removing empties it. -/
theorem entry_filter {removed : String} :
    entry (records.filter (·.url != removed)) url =
      if url = removed then none else entry records url := by
  induction records with
  | nil => simp [entry]
  | cons existing rest ih =>
    by_cases hkept : existing.url = removed
    · rw [List.filter_cons, if_neg (by simp [hkept]), ih, entry_cons, hkept]
      by_cases hurl : url = removed
      · rw [if_pos hurl, if_pos hurl]
      · rw [if_neg hurl, if_neg hurl, if_neg (Ne.symm hurl)]
    · rw [List.filter_cons, if_pos (by simp [hkept]), entry_cons, ih, entry_cons]
      by_cases hurl : url = removed
      · rw [if_pos hurl, if_pos hurl, if_neg (hurl ▸ hkept)]
      · rw [if_neg hurl, if_neg hurl]

/-- What is expected is what the entry says. -/
theorem expectedPeerKey_eq {peers : JsonFile PeerConfig} {value : String}
    (hlist : listPeerRecords peers = .ok records) (hurl : normalizePeerUrl value = .ok url) :
    expectedPeerKey peers value =
      match entry records url with
      | none => .ok none
      | some none => bail s!"peer {url} is unpinned; add it again with --public-key"
      | some (some key) => .ok (some key) := by
  simp only [expectedPeerKey, hurl, hlist, entry, bind, Except.bind]
  cases records.find? (·.url == url) with
  | none => rfl
  | some r =>
    obtain ⟨_, _ | key⟩ := r
    · rfl
    · rfl

/-! ## What is written is read again -/

/-- Records as the loader leaves them. -/
structure Normal (records : List PeerRecord) : Prop where
  nodup : (records.map (·.url)).Nodup
  normal : ∀ r ∈ records, normalizeRecord (.record r) = .ok r

theorem Normal.nil : Normal [] := ⟨List.nodup_nil, fun _ h => nomatch h⟩

theorem Normal.perm (h : Normal records) (hperm : records'.Perm records) : Normal records' :=
  ⟨(hperm.map _).nodup_iff.2 h.nodup, fun r hr => h.normal r (hperm.subset hr)⟩

theorem Normal.filter (h : Normal records) (p : PeerRecord → Bool) : Normal (records.filter p) :=
  ⟨h.nodup.sublist (List.filter_sublist.map _),
    fun r hr => h.normal r (List.mem_of_mem_filter hr)⟩

/-- A record in its normal form is put in its place. -/
theorem Normal.addRecord (hnormal : Normal records)
    (hrecord : normalizeRecord (.record record) = .ok record)
    (h : Embernet.addRecord record records = .ok records') : Normal records' := by
  constructor
  · rw [(addRecord_ok h).2.2]
    split
    · exact hnormal.nodup
    · rename_i hnew
      refine List.nodup_append.2 ⟨hnormal.nodup, List.nodup_singleton _, ?_⟩
      rintro url hmem url' hmem' rfl
      rw [List.mem_singleton.1 hmem'] at hmem
      exact hnew hmem
  · have hall := hnormal.normal
    clear hnormal
    induction records generalizing records' with
    | nil =>
      cases h
      intro r hr
      rwa [List.mem_singleton.1 hr]
    | cons existing rest ih =>
      rw [Embernet.addRecord] at h
      split_ifs at h with hsame hnone hconflict
      · cases h
        intro r hr
        rcases List.mem_cons.1 hr with rfl | hr
        · -- the address is the one's and the key the other's
          have hurl := (normalizeRecord_record.1 hrecord).1
          refine normalizeRecord_record.2 ⟨?_, (normalizeRecord_record.1 hrecord).2⟩
          rwa [← hsame] at hurl
        · exact hall r (List.mem_cons_of_mem _ hr)
      · cases h
      · cases h
        exact hall
      · obtain ⟨rest', hrest, hcons⟩ := bind_eq_ok.1 h
        cases hcons
        intro r hr
        rcases List.mem_cons.1 hr with rfl | hr
        · exact hall _ List.mem_cons_self
        · exact ih hrest (fun r hr => hall r (List.mem_cons_of_mem _ hr)) r hr

/-- The loop keeps them so. -/
theorem Normal.foldlM
    (hidem : ∀ value url, normalizePeerUrl value = .ok url → normalizePeerUrl url = .ok url)
    {stored : List StoredPeer} (hnormal : Normal records)
    (h : stored.foldlM takeRecord records = .ok records') : Normal records' := by
  induction stored generalizing records with
  | nil =>
    cases h
    exact hnormal
  | cons s stored ih =>
    rw [List.foldlM_cons] at h
    obtain ⟨next, hnext, hrest⟩ := bind_eq_ok.1 h
    obtain ⟨record, hrecord, hadd⟩ := bind_eq_ok.1 hnext
    exact ih (hnormal.addRecord (normalizeRecord_idem hidem hrecord) hadd) hrest

/-- **What is listed is in its normal form.** -/
theorem normal_listPeerRecords
    (hidem : ∀ value url, normalizePeerUrl value = .ok url → normalizePeerUrl url = .ok url)
    {peers : JsonFile PeerConfig} (h : listPeerRecords peers = .ok records) : Normal records := by
  cases peers with
  | absent =>
    cases h
    exact .nil
  | malformed => cases h
  | value config =>
    obtain ⟨-, -, hsorted⟩ := bind_eq_ok.1 h
    obtain ⟨listed, hlisted, hsort⟩ := bind_eq_ok.1 hsorted
    cases hsort
    exact (Normal.foldlM hidem .nil hlisted).perm (List.perm_insertionSort _ _)

omit [Urls] in
/-- A record with a new address is put last. -/
theorem addRecord_new (hnew : record.url ∉ records.map (·.url)) :
    addRecord record records = .ok (records ++ [record]) := by
  induction records with
  | nil => rfl
  | cons existing rest ih =>
    rw [List.map_cons, List.mem_cons, not_or] at hnew
    rw [addRecord, if_neg (Ne.symm hnew.1), ih hnew.2]
    rfl

/-- Records with new addresses are put last, one after the other. -/
theorem foldlM_takeRecord_normal (h : Normal (records ++ records')) :
    (records'.map StoredPeer.record).foldlM takeRecord records = .ok (records ++ records') := by
  induction records' generalizing records with
  | nil =>
    rw [List.append_nil]
    rfl
  | cons record records' ih =>
    have hnew : record.url ∉ records.map (·.url) := by
      have hnodup := h.nodup
      rw [List.map_append, List.nodup_append] at hnodup
      exact fun hmem => hnodup.2.2 _ hmem _ (by simp) rfl
    have htake : takeRecord records (.record record) = .ok (records ++ [record]) := by
      rw [takeRecord, h.normal record (by simp)]
      exact addRecord_new hnew
    rw [List.map_cons, List.foldlM_cons, htake]
    have happend : records ++ record :: records' = records ++ [record] ++ records' := by simp
    rw [happend] at h ⊢
    exact ih h

/-- **What is written lists the same records**, in their order. -/
theorem listPeerRecords_writePeers (h : Normal records) :
    ∃ listed, listPeerRecords (writePeers records) = .ok listed ∧ listed.Perm records := by
  let sorted := records.insertionSort fun left right => left.url ≤ right.url
  have hperm : sorted.Perm records := List.perm_insertionSort _ _
  have hfold : (sorted.map StoredPeer.record).foldlM takeRecord [] = .ok sorted :=
    foldlM_takeRecord_normal (show Normal ([] ++ sorted) from h.perm hperm)
  refine ⟨sorted.insertionSort fun left right => left.url ≤ right.url, ?_,
    (List.perm_insertionSort _ _).trans hperm⟩
  change (do
    bailIf _ _
    let records ← (sorted.map StoredPeer.record).foldlM takeRecord []
    pure (records.insertionSort fun (left right : PeerRecord) => left.url ≤ right.url)) = _
  rw [hfold]
  rfl

/-! ## Calls -/

omit [Urls] in
/-- Pinning is adding, up to the words of the refusal. -/
theorem pinRecord_ok :
    pinRecord url key records = .ok records' ↔ addRecord ⟨url, key⟩ records = .ok records' := by
  induction records generalizing records' with
  | nil => rfl
  | cons existing rest ih =>
    rw [pinRecord.eq_def, addRecord]
    simp only
    by_cases hurl : existing.url = url
    · rw [if_pos hurl, if_pos hurl]
      obtain ⟨_, current⟩ := existing
      cases key with
      | none => cases current <;> simp
      | some key =>
        cases current with
        | none => simp [map_eq_ok]
        | some current =>
          by_cases hcurrent : current = key
          · simp [map_eq_ok, hcurrent]
          · have hbail (e : String) : (bail e : Except Error _) ≠ .ok records' := by
              intro h
              cases h
            simp [map_eq_ok, hcurrent, hbail]
    · rw [if_neg hurl, if_neg hurl]
      simp only [bind_eq_ok, ih]

/-- **What adding does**: nothing where it fails, and else it fills the
entry of the address. -/
theorem addPeer_cases
    (hidem : ∀ value url, normalizePeerUrl value = .ok url → normalizePeerUrl url = .ok url)
    {peers : JsonFile PeerConfig} (hlist : listPeerRecords peers = .ok records) (value : String)
    (given : Option String) :
    (∃ e, (addPeer value given).exec peers = (.error e, peers)) ∨
      ∃ url key added peers' records', normalizePeerUrl value = .ok url ∧
        (addPeer value given).exec peers = (.ok added, peers') ∧
        listPeerRecords peers' = .ok records' ∧
        ∀ u, entry records' u =
          if u = url then some ((entry records u).join.or key) else entry records u := by
  rw [addPeer, Op.exec_except_bind]
  cases hurl : normalizePeerUrl value with
  | error e => exact .inl ⟨e, rfl⟩
  | ok url =>
    simp only
    rw [Op.exec_except_bind]
    cases hkey : given.mapM validatePinnedKey with
    | error e => exact .inl ⟨e, rfl⟩
    | ok key =>
      simp only
      rw [Op.exec_bind_of_ok Op.exec_get, Op.exec_except_bind, hlist]
      simp only
      rw [Op.exec_except_bind]
      cases hpin : pinRecord url key records with
      | error e => exact .inl ⟨e, rfl⟩
      | ok pinned =>
        have hadd := pinRecord_ok.1 hpin
        have hstored : normalizeRecord (.record ⟨value, given⟩) = .ok ⟨url, key⟩ := by
          simp only [normalizeRecord, StoredPeer.toRecord, hurl, hkey]
          rfl
        have hnormal : Normal pinned :=
          (normal_listPeerRecords hidem hlist).addRecord (normalizeRecord_idem hidem hstored) hadd
        obtain ⟨listed, hlisted, hperm⟩ := listPeerRecords_writePeers hnormal
        -- the record looked up at the end is there
        have hthere : (pinned.find? (·.url == url)).isSome := by
          have : (entry pinned url).isSome := by
            rw [entry_addRecord hadd, if_pos rfl]
            rfl
          simpa [entry] using this
        obtain ⟨added, hadded⟩ := Option.isSome_iff_exists.1 hthere
        refine .inr ⟨url, key, added, writePeers pinned, listed, rfl, ?_, hlisted, fun u => ?_⟩
        · simp only
          rw [Op.exec_bind_of_ok Op.exec_set, hadded]
          rfl
        · rw [entry_perm hnormal.nodup hperm, entry_addRecord hadd]

/-- **What removing does**: nothing where it fails, and else it empties
the entry of the address, and says whether there was one. -/
theorem removePeer_cases
    (hidem : ∀ value url, normalizePeerUrl value = .ok url → normalizePeerUrl url = .ok url)
    {peers : JsonFile PeerConfig} (hlist : listPeerRecords peers = .ok records) (value : String) :
    (∃ e, (removePeer value).exec peers = (.error e, peers)) ∨
      ∃ url removed peers' records', normalizePeerUrl value = .ok url ∧
        (removePeer value).exec peers = (.ok removed, peers') ∧
        (removed = true ↔ (entry records url).isSome) ∧
        listPeerRecords peers' = .ok records' ∧
        ∀ u, entry records' u = if u = url then none else entry records u := by
  rw [removePeer, Op.exec_except_bind]
  cases hurl : normalizePeerUrl value with
  | error e => exact .inl ⟨e, rfl⟩
  | ok url =>
    simp only
    rw [Op.exec_bind_of_ok Op.exec_get, Op.exec_except_bind, hlist]
    simp only
    rw [Op.exec_bind_of_ok Op.exec_set, Op.exec_pure]
    have hnormal := (normal_listPeerRecords hidem hlist).filter (·.url != url)
    obtain ⟨listed, hlisted, hperm⟩ := listPeerRecords_writePeers hnormal
    refine .inr ⟨url, _, _, listed, rfl, rfl, ?_, hlisted, fun u => ?_⟩
    · rw [bne_iff_ne, ne_eq, List.length_filter_eq_length_iff, entry_isSome]
      simp
    · rw [entry_perm hnormal.nodup hperm, entry_filter]

/-! ## Runs -/

/-- The call removed the record of the address that `value` spells. -/
def PeerCall.Removes (value : String) : PeerCall → Prop
  | add _ _ _ => False
  | remove value' result => result = .ok true ∧ normalizePeerUrl value' = normalizePeerUrl value

/-- The configuration loads, and its entry of the address is as said. -/
def HasEntry (url : String) (P : Option (Option String) → Prop) (peers : JsonFile PeerConfig) :
    Prop :=
  ∃ records, listPeerRecords peers = .ok records ∧ P (entry records url)

/-- A peer is saved under the address that `value` spells. -/
def SavedPeer (peers : JsonFile PeerConfig) (value : String) : Prop :=
  ∃ url, normalizePeerUrl value = .ok url ∧ HasEntry url (·.isSome) peers

variable {peers peers' : JsonFile PeerConfig} {value : String} {calls : List PeerCall}
  {P : Option (Option String) → Prop}

/-- **Only removal ends what adding cannot.** A step keeps what the entry
of an address is, where filling it does, or removes that address. -/
theorem hasEntry_step
    (hidem : ∀ value url, normalizePeerUrl value = .ok url → normalizePeerUrl url = .ok url)
    (hurl : normalizePeerUrl value = .ok url) (hnone : ¬ P none)
    (hfill : ∀ o key, P o → P (some (o.join.or key))) {call : PeerCall}
    (hentry : HasEntry url P peers) (hstep : PeerStep peers call peers') :
    HasEntry url P peers' ∨ call.Removes value := by
  obtain ⟨records, hlist, hP⟩ := hentry
  match call with
  | .add value' given result =>
    rcases addPeer_cases hidem hlist value' given with
      ⟨e, hexec⟩ | ⟨url', key, added, peers₁, records', -, hexec, hlist', hentries⟩
    · cases hexec.symm.trans hstep
      exact .inl ⟨records, hlist, hP⟩
    · cases hexec.symm.trans hstep
      refine .inl ⟨records', hlist', ?_⟩
      rw [hentries]
      split
      · exact hfill _ _ hP
      · exact hP
  | .remove value' result =>
    rcases removePeer_cases hidem hlist value' with
      ⟨e, hexec⟩ | ⟨url', removed, peers₁, records', hurl', hexec, hremoved, hlist', hentries⟩
    · cases hexec.symm.trans hstep
      exact .inl ⟨records, hlist, hP⟩
    · cases hexec.symm.trans hstep
      by_cases hsame : url = url'
      · -- of this address, of which there was a record
        have hthere : (entry records url').isSome := by
          rw [← hsame]
          cases hentry : entry records url with
          | none => exact absurd (hentry ▸ hP) hnone
          | some o => rfl
        exact .inr ⟨by rw [hremoved.2 hthere], hurl'.trans (hsame ▸ hurl.symm)⟩
      · refine .inl ⟨records', hlist', ?_⟩
        rwa [hentries, if_neg hsame]

/-- And a run does, or removes the address on its way. -/
theorem hasEntry_run
    (hidem : ∀ value url, normalizePeerUrl value = .ok url → normalizePeerUrl url = .ok url)
    (hurl : normalizePeerUrl value = .ok url) (hnone : ¬ P none)
    (hfill : ∀ o key, P o → P (some (o.join.or key))) (hentry : HasEntry url P peers)
    (hrun : Run PeerStep peers calls peers') :
    HasEntry url P peers' ∨ ∃ call ∈ calls, call.Removes value :=
  hrun.holds_unless (fun _ _ _ hI hstep => hasEntry_step hidem hurl hnone hfill hI hstep) hentry

/-- The configuration still loads. -/
theorem listed_run
    (hidem : ∀ value url, normalizePeerUrl value = .ok url → normalizePeerUrl url = .ok url)
    (hlist : listPeerRecords peers = .ok records) (hrun : Run PeerStep peers calls peers') :
    ∃ records', listPeerRecords peers' = .ok records' := by
  refine hrun.invariant (I := fun peers => ∃ records, listPeerRecords peers = .ok records) ?_
    ⟨records, hlist⟩
  rintro peers call peers' ⟨records, hlist⟩ hstep
  match call with
  | .add value' given result =>
    rcases addPeer_cases hidem hlist value' given with
      ⟨e, hexec⟩ | ⟨_, _, _, _, records', -, hexec, hlist', -⟩
    · cases hexec.symm.trans hstep
      exact ⟨records, hlist⟩
    · cases hexec.symm.trans hstep
      exact ⟨records', hlist'⟩
  | .remove value' result =>
    rcases removePeer_cases hidem hlist value' with
      ⟨e, hexec⟩ | ⟨_, _, _, records', -, hexec, -, hlist', -⟩
    · cases hexec.symm.trans hstep
      exact ⟨records, hlist⟩
    · cases hexec.symm.trans hstep
      exact ⟨records', hlist'⟩

/-- A key is expected exactly where the address is pinned to it. -/
theorem expectedPeerKey_some {key : String} :
    expectedPeerKey peers value = .ok (some key) ↔
      ∃ url, normalizePeerUrl value = .ok url ∧ HasEntry url (· = some (some key)) peers := by
  constructor
  · intro h
    obtain ⟨url, hurl, h'⟩ := bind_eq_ok.1 h
    obtain ⟨records, hlist, -⟩ := bind_eq_ok.1 h'
    refine ⟨url, hurl, records, hlist, ?_⟩
    rw [expectedPeerKey_eq hlist hurl] at h
    split at h
    · cases h
    · cases h
    · rename_i key' hentry
      cases h
      exact hentry
  · rintro ⟨url, hurl, records, hlist, hentry⟩
    rw [expectedPeerKey_eq hlist hurl, hentry]

/-- Where a peer is saved, some key is expected or none is accepted. -/
theorem SavedPeer.expectedPeerKey_ne (h : SavedPeer peers value) :
    expectedPeerKey peers value ≠ .ok none := by
  obtain ⟨url, hurl, records, hlist, hentry⟩ := h
  rw [expectedPeerKey_eq hlist hurl]
  intro hnone
  split at hnone
  · rename_i hempty
    rw [hempty] at hentry
    cases hentry
  · cases hnone
  · cases hnone

/-- **A pin changes only by removal.** Along any calls from a configuration
that loads: a key once expected of an address is expected until the address
is removed; an address that was added is saved until then, and while it is,
no responder of it goes without a key; and an addition that fails leaves the
configuration as it was. -/
theorem pins_change_only_by_removal {peers₀ : JsonFile PeerConfig}
    (hidem : ∀ value url, normalizePeerUrl value = .ok url → normalizePeerUrl url = .ok url)
    (hlist : listPeerRecords peers₀ = .ok records) (hrun : Run PeerStep peers₀ calls peers) :
    (∀ value key calls' peers', expectedPeerKey peers value = .ok (some key) →
      Run PeerStep peers calls' peers' → expectedPeerKey peers' value ≠ .ok (some key) →
        ∃ call ∈ calls', call.Removes value) ∧
      (∀ value, SavedPeer peers value → expectedPeerKey peers value ≠ .ok none) ∧
      (∀ value calls' peers', SavedPeer peers value → Run PeerStep peers calls' peers' →
        SavedPeer peers' value ∨ ∃ call ∈ calls', call.Removes value) ∧
      (∀ value given record peers', PeerStep peers (.add value given (.ok record)) peers' →
        SavedPeer peers' value) ∧
      ∀ value given e peers', PeerStep peers (.add value given (.error e)) peers' →
        peers' = peers := by
  obtain ⟨records', hlist'⟩ := listed_run hidem hlist hrun
  refine ⟨?_, fun _ hsaved => hsaved.expectedPeerKey_ne, ?_, ?_, ?_⟩
  · intro value key calls' peers' hkey hrun' hlost
    obtain ⟨url, hurl, hentry⟩ := expectedPeerKey_some.1 hkey
    rcases hasEntry_run hidem hurl nofun (fun _ _ h => by rw [h]; rfl) hentry hrun' with h | h
    · exact absurd (expectedPeerKey_some.2 ⟨url, hurl, h⟩) hlost
    · exact h
  · rintro value calls' peers' ⟨url, hurl, hentry⟩ hrun'
    rcases hasEntry_run hidem hurl nofun (fun _ _ _ => rfl) hentry hrun' with h | h
    · exact .inl ⟨url, hurl, h⟩
    · exact .inr h
  · intro value given record peers' hstep
    rcases addPeer_cases hidem hlist' value given with
      ⟨e, hexec⟩ | ⟨url, key, added, peers₁, records₁, hurl, hexec, hlist₁, hentries⟩
    · cases hexec.symm.trans hstep
    · cases hexec.symm.trans hstep
      refine ⟨url, hurl, records₁, hlist₁, ?_⟩
      rw [hentries, if_pos rfl]
      rfl
  · intro value given e peers' hstep
    rcases addPeer_cases hidem hlist' value given with
      ⟨e, hexec⟩ | ⟨_, _, _, _, _, -, hexec, -, -⟩
    · cases hexec.symm.trans hstep
      rfl
    · cases hexec.symm.trans hstep

end Pins

/-! ### One host, pinned and removed -/

section OneHost

/-- The URLs of one host: its own, and that of its endpoint. -/
@[reducible] def hostUrls : Urls where
  Url := String
  parse s :=
    if s = "ws://peer" then some "/" else if s = "ws://peer/sync" then some "/sync" else none
  scheme _ := "ws"
  host _ := some "peer"
  path url := url
  withoutQuery url := url
  setPath path _ := path
  setScheme _ url := some url
  render url := "ws://peer" ++ url

attribute [local instance] hostUrls

theorem normalizePeerUrl_hostUrls {value url : String} (h : normalizePeerUrl value = .ok url) :
    url = "ws://peer/sync" := by
  obtain ⟨parsed, hparsed, h⟩ := bind_eq_ok.1 h
  obtain ⟨-, -, h⟩ := bind_eq_ok.1 h
  obtain ⟨-, -, h⟩ := bind_eq_ok.1 h
  cases h
  replace hparsed : (if trim value = "ws://peer" then some "/"
      else if trim value = "ws://peer/sync" then some "/sync" else none) = some parsed :=
    orBail_eq_ok.1 hparsed
  split_ifs at hparsed
  · cases hparsed
    rfl
  · cases hparsed
    rfl

theorem normalizePeerUrl_endpoint :
    normalizePeerUrl "ws://peer/sync" = .ok "ws://peer/sync" := by
  decide +kernel

/-- Addresses of the host have a normal form. -/
theorem normalizePeerUrl_hostUrls_idem (value url : String) (h : normalizePeerUrl value = .ok url) :
    normalizePeerUrl url = .ok url := by
  rw [normalizePeerUrl_hostUrls h]
  exact normalizePeerUrl_endpoint

/-- A key. -/
def pinnedKey : String := hexEncode (List.replicate 32 1)

/-- What the configuration is once the host is pinned. -/
def pinnedPeers : JsonFile PeerConfig :=
  .value { version := 2, peers := [.record ⟨"ws://peer/sync", some pinnedKey⟩] }

/-- The law for a host that is pinned to a key under one spelling and
removed under another. -/
theorem pins_change_only_by_removal_host :
    ∃ calls : List PeerCall,
      Run PeerStep pinnedPeers calls (.value { version := 2, peers := [] }) ∧
      expectedPeerKey pinnedPeers "ws://peer" = .ok (some pinnedKey) ∧
      ∃ call ∈ calls, call.Removes "ws://peer" := by
  have hadd : PeerStep .absent
      (.add "ws://peer" (some pinnedKey) (.ok ⟨"ws://peer/sync", some pinnedKey⟩)) pinnedPeers := by
    change (addPeer _ _).exec _ = _
    decide +kernel
  have hremove : PeerStep pinnedPeers (.remove "ws://peer/sync" (.ok true))
      (.value { version := 2, peers := [] }) := by
    change (removePeer _).exec _ = _
    decide +kernel
  have hexpected : expectedPeerKey pinnedPeers "ws://peer" = .ok (some pinnedKey) := by
    decide +kernel
  have hrun := Run.snoc (Run.nil _) hremove
  have hlist : listPeerRecords .absent = .ok [] := rfl
  refine ⟨_, hrun, hexpected, ?_⟩
  refine (pins_change_only_by_removal normalizePeerUrl_hostUrls_idem hlist (.snoc (.nil _) hadd)).1
    _ _ _ _ hexpected hrun ?_
  decide +kernel

end OneHost

end Embernet
