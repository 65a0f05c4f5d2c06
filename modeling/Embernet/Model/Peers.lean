import Embernet.Model.Datadir
/-!
# Peers — the responders a node knows

`peers.rs`. `peers.json` lists addresses, each with the key its responder
is pinned to or with none. Addresses are compared in a normal form; two
records of one address must not pin two keys.
-/

set_option autoImplicit false

namespace Embernet

/-- The URL library, which is not under this source. -/
class Urls where
  Url : Type
  /-- `Url::parse` -/
  parse : String → Option Url
  scheme : Url → String
  /-- `host_str` -/
  host : Url → Option String
  path : Url → String
  /-- `set_query(None)` and `set_fragment(None)` -/
  withoutQuery : Url → Url
  setPath : String → Url → Url
  setScheme : String → Url → Option Url
  /-- `to_string` -/
  render : Url → String

/-- `PeerRecord`. -/
structure PeerRecord where
  url : String
  publicKey : Option String
  deriving DecidableEq

/-- A record as the file holds it. -/
inductive StoredPeer
  | legacy (url : String)
  | record (r : PeerRecord)
  deriving DecidableEq

/-- A peer of the first version has no key. -/
def StoredPeer.toRecord : StoredPeer → PeerRecord
  | legacy url => { url, publicKey := none }
  | record r => r

/-- `peers.json`. -/
structure PeerConfig where
  version : ℕ
  peers : List StoredPeer
  deriving DecidableEq

/-- `char::is_whitespace`. -/
def isWhitespace (c : Char) : Bool :=
  let n := c.toNat
  decide (9 ≤ n ∧ n ≤ 13) || n == 0x20 || n == 0x85 || n == 0xa0 || n == 0x1680 ||
    decide (0x2000 ≤ n ∧ n ≤ 0x200a) || n == 0x2028 || n == 0x2029 || n == 0x202f ||
    n == 0x205f || n == 0x3000

/-- `str::trim`. -/
def trim (s : String) : String :=
  String.ofList ((s.toList.dropWhile isWhitespace).reverse.dropWhile isWhitespace).reverse

/-- `to_ascii_lowercase`. -/
def toAsciiLowercase (s : String) : String :=
  String.ofList (s.toList.map fun c =>
    if 'A' ≤ c ∧ c ≤ 'Z' then Char.ofNat (c.toNat + 32) else c)

/-- `validate_public_key` of `peers.rs`. -/
def validatePinnedKey (value : String) : Except Error String := do
  let normalized := toAsciiLowercase (trim value)
  let bytes ← orBail ["peer public key must be hexadecimal"] (hexDecode normalized)
  bailIf (bytes.length ≠ 32) ["peer public key must encode 32 bytes"]
  pure normalized

/-- Adds a record to those before it: a key to a record of the same
address that has none, and a conflict where it has another. -/
def addRecord (record : PeerRecord) : List PeerRecord → Except Error (List PeerRecord)
  | [] => pure [record]
  | existing :: rest =>
    if existing.url = record.url then
      -- a record with no key takes the other's
      if existing.publicKey = none then
        pure ({ existing with publicKey := record.publicKey } :: rest)
      else if record.publicKey ≠ none ∧ existing.publicKey ≠ record.publicKey then
        bail s!"peer {record.url} has conflicting pinned identities"
      else pure (existing :: rest)
    else do
      let rest ← addRecord record rest
      pure (existing :: rest)

section Urls

variable [Urls]

/-- `normalize_peer_url`. -/
def normalizePeerUrl (value : String) : Except Error String := do
  let url ← orBail ["invalid peer URL"] (Urls.parse (trim value))
  bailIf (Urls.scheme url ≠ "ws" ∧ Urls.scheme url ≠ "wss") ["peer URL must use ws:// or wss://"]
  bailIf (Urls.host url = none) ["peer URL must include a host"]
  let url := Urls.withoutQuery url
  pure (Urls.render
    (if Urls.path url = "" ∨ Urls.path url = "/" then Urls.setPath "/sync" url else url))

/-- A stored record, its address and its key in their normal form. -/
def normalizeRecord (stored : StoredPeer) : Except Error PeerRecord := do
  let record := stored.toRecord
  let url ← normalizePeerUrl record.url
  let publicKey ← record.publicKey.mapM validatePinnedKey
  pure { url, publicKey }

/-- One turn of the loop of `list_peer_records`. -/
def takeRecord (records : List PeerRecord) (stored : StoredPeer) :
    Except Error (List PeerRecord) := do
  let record ← normalizeRecord stored
  addRecord record records

/-- `list_peer_records`. -/
def listPeerRecords : JsonFile PeerConfig → Except Error (List PeerRecord)
  | .absent => pure []
  | .malformed => bail "parse peers.json"
  | .value config => do
    let version := config.version
    bailIf (version ≠ 1 ∧ version ≠ 2) [s!"unsupported peer configuration version {version}"]
    let records ← config.peers.foldlM takeRecord []
    pure (records.insertionSort fun left right => left.url ≤ right.url)

/-- `expected_peer_key`. -/
def expectedPeerKey (peers : JsonFile PeerConfig) (value : String) :
    Except Error (Option String) := do
  let url ← normalizePeerUrl value
  let records ← listPeerRecords peers
  match records.find? (·.url == url) with
  -- an address that is not configured is not pinned
  | none => pure none
  | some record =>
    let publicKey ← orBail [s!"peer {url} is unpinned; add it again with --public-key"]
      record.publicKey
    pure (some publicKey)

/-! ## Changes -/

omit [Urls] in
/-- What `add_peer` makes of the records: a new one, or the key put into
the one of that address. -/
def pinRecord (url : String) (publicKey : Option String) :
    List PeerRecord → Except Error (List PeerRecord)
  | [] => pure [{ url, publicKey }]
  | existing :: rest =>
    if existing.url = url then
      match publicKey with
      | none => pure (existing :: rest)
      | some key => do
        let current := existing.publicKey.getD key
        bailIf (current ≠ key)
          [s!"peer {url} is already pinned to {current}; remove it before trusting a new identity"]
        pure ({ existing with publicKey := some key } :: rest)
    else do
      let rest ← pinRecord url publicKey rest
      pure (existing :: rest)

omit [Urls] in
/-- `write_peers`. -/
def writePeers (records : List PeerRecord) : JsonFile PeerConfig :=
  .value
    { version := 2,
      peers := (records.insertionSort fun left right => left.url ≤ right.url).map .record }

/-- Operations on `peers.json`, which they lock. -/
abbrev PeersM := Op (JsonFile PeerConfig) Error

/-- `add_peer`. -/
def addPeer (value : String) (publicKey : Option String) : PeersM PeerRecord := do
  let url ← (normalizePeerUrl value : Except Error _)
  let publicKey ← (publicKey.mapM validatePinnedKey : Except Error _)
  let peers ← get
  let records ← (listPeerRecords peers : Except Error _)
  let records ← (pinRecord url publicKey records : Except Error _)
  set (writePeers records)
  orBail ["peer was inserted"] (records.find? (·.url == url))

/-- `remove_peer`. -/
def removePeer (value : String) : PeersM Bool := do
  let url ← (normalizePeerUrl value : Except Error _)
  let peers ← get
  let records ← (listPeerRecords peers : Except Error _)
  let kept := records.filter (·.url != url)
  -- written anew also where nothing was removed
  set (writePeers kept)
  pure (kept.length != records.length)

/-- A call that changes the configuration, with what it returned. -/
inductive PeerCall
  | add (value : String) (publicKey : Option String) (result : Except Error PeerRecord)
  | remove (value : String) (result : Except Error Bool)

/-- One call as a step of the configuration. -/
def PeerStep (peers : JsonFile PeerConfig) : PeerCall → JsonFile PeerConfig → Prop
  | .add value publicKey result, peers' => (addPeer value publicKey).exec peers = (result, peers')
  | .remove value result, peers' => (removePeer value).exec peers = (result, peers')

/-! ## Pins -/

/-- `peers.json` pins the address to the key: one of its records is of
the address and has the key. -/
def Pins (peers : JsonFile PeerConfig) (value key : String) : Prop :=
  ∃ config url, peers = .value config ∧ normalizePeerUrl value = .ok url ∧
    ∃ stored ∈ config.peers, normalizeRecord stored = .ok ⟨url, some key⟩

variable {records records' : List PeerRecord} {record : PeerRecord}

omit [Urls] in
/-- A record that has a key keeps it, and a record is only added where
its address is new. -/
theorem addRecord_ok (h : addRecord record records = .ok records') :
    (∀ r ∈ records, r.publicKey ≠ none → r ∈ records') ∧
      (record.publicKey ≠ none → record ∈ records') ∧
      records'.map (·.url) =
        if record.url ∈ records.map (·.url) then records.map (·.url)
        else records.map (·.url) ++ [record.url] := by
  induction records generalizing records' with
  | nil =>
    cases h
    simp
  | cons existing rest ih =>
    rw [addRecord] at h
    split_ifs at h with hurl hnone hconflict
    · cases h
      refine ⟨?_, fun _ => ?_, by simp [hurl]⟩
      · intro r hr hkey
        rcases List.mem_cons.1 hr with rfl | hr
        · exact absurd hnone hkey
        · exact List.mem_cons_of_mem _ hr
      · have : record = { existing with publicKey := record.publicKey } := by
          cases record
          cases hurl
          rfl
        exact this ▸ List.mem_cons_self
    · cases h
    · cases h
      refine ⟨fun r hr _ => hr, fun hkey => ?_, by simp [hurl]⟩
      have hsame : existing.publicKey = record.publicKey := by
        by_contra hne
        exact hconflict ⟨hkey, hne⟩
      have : existing = record := by
        cases existing
        cases hurl
        cases hsame
        rfl
      exact this ▸ List.mem_cons_self
    · obtain ⟨rest', hrest, hcons⟩ := bind_eq_ok.1 h
      cases hcons
      obtain ⟨hkept, hadded, hurls⟩ := ih hrest
      refine ⟨?_, fun hkey => List.mem_cons_of_mem _ (hadded hkey), ?_⟩
      · intro r hr hkey
        rcases List.mem_cons.1 hr with rfl | hr
        · exact List.mem_cons_self
        · exact List.mem_cons_of_mem _ (hkept r hr hkey)
      · have hmem : record.url ∈ (existing :: rest).map (·.url) ↔
            record.url ∈ rest.map (·.url) := by
          rw [List.map_cons, List.mem_cons, or_iff_right (Ne.symm hurl)]
        rw [List.map_cons, hurls]
        by_cases hknown : record.url ∈ rest.map (·.url)
        · rw [if_pos hknown, if_pos (hmem.2 hknown), List.map_cons]
        · rw [if_neg hknown, if_neg (mt hmem.1 hknown), List.map_cons, List.cons_append]

/-- The loop keeps addresses apart, keeps every key, and takes in every
key. -/
theorem foldlM_takeRecord_ok {stored : List StoredPeer}
    (h : stored.foldlM takeRecord records = .ok records')
    (hnodup : (records.map (·.url)).Nodup) :
    (records'.map (·.url)).Nodup ∧ (∀ r ∈ records, r.publicKey ≠ none → r ∈ records') ∧
      ∀ s ∈ stored, ∀ r, normalizeRecord s = .ok r → r.publicKey ≠ none → r ∈ records' := by
  induction stored generalizing records with
  | nil =>
    cases h
    exact ⟨hnodup, fun r hr _ => hr, fun s hs => nomatch hs⟩
  | cons s stored ih =>
    rw [List.foldlM_cons] at h
    obtain ⟨next, hnext, hrest⟩ := bind_eq_ok.1 h
    obtain ⟨record, hrecord, hadd⟩ := bind_eq_ok.1 hnext
    obtain ⟨hkept, hadded, hurls⟩ := addRecord_ok hadd
    have hnodup' : (next.map (·.url)).Nodup := by
      rw [hurls]
      split
      · exact hnodup
      · exact List.nodup_append.2 ⟨hnodup, List.nodup_singleton _, by
          rintro url hmem url' hmem' rfl
          exact absurd (List.mem_singleton.1 hmem' ▸ hmem) ‹_›⟩
    obtain ⟨hnodup'', hkept', htaken⟩ := ih hrest hnodup'
    refine ⟨hnodup'', fun r hr hkey => hkept' r (hkept r hr hkey) hkey, ?_⟩
    intro s' hs' r hr hkey
    rcases List.mem_cons.1 hs' with rfl | hs'
    · cases hrecord.symm.trans hr
      exact hkept' _ (hadded hkey) hkey
    · exact htaken s' hs' r hr hkey

/-- **A pin is expected**, where anything is. -/
theorem expectedPeerKey_of_pins {peers : JsonFile PeerConfig} {value key : String}
    {expected : Option String} (hpins : Pins peers value key)
    (h : expectedPeerKey peers value = .ok expected) : expected = some key := by
  obtain ⟨config, url, rfl, hurl, stored, hstored, hrecord⟩ := hpins
  obtain ⟨url', hurl', h⟩ := bind_eq_ok.1 h
  cases hurl.symm.trans hurl'
  obtain ⟨records, hrecords, h⟩ := bind_eq_ok.1 h
  obtain ⟨-, -, hsorted⟩ := bind_eq_ok.1 hrecords
  obtain ⟨listed, hlisted, hsort⟩ := bind_eq_ok.1 hsorted
  cases hsort
  obtain ⟨hnodup, -, htaken⟩ := foldlM_takeRecord_ok hlisted List.nodup_nil
  have hmem : (⟨url, some key⟩ : PeerRecord) ∈ listed := htaken stored hstored _ hrecord (by simp)
  cases hfind : (listed.insertionSort fun left right => left.url ≤ right.url).find?
      (·.url == url) with
  | none =>
    have := List.find?_eq_none.1 hfind ⟨url, some key⟩ ((List.mem_insertionSort _).2 hmem)
    simp at this
  | some record =>
    have hfound : record ∈ listed := (List.mem_insertionSort _).1 (List.mem_of_find?_eq_some hfind)
    have hsame : record.url = url := by simpa using List.find?_some hfind
    obtain rfl : record = ⟨url, some key⟩ := List.inj_on_of_nodup_map hnodup hfound hmem hsame
    rw [hfind] at h
    cases h
    rfl

end Urls

end Embernet
