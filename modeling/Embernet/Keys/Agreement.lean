import Mathlib.Data.List.Induction
import Embernet.Lib.Exchange
import Embernet.Model.Keyring
import Embernet.Model.Simulated
/-!
# Key agreement — which key two members write under

A member writes under the last key of its keyring, and a key is put last
when it is generated and when it is accepted. After two members have
exchanged their keys both hold the same keys, in orders that need not
agree. They write under the newest key exactly where one of them led: it
had nothing to learn, its newest key stood last, and the other lacked
that key or stood there too.
-/

set_option autoImplicit false

namespace Embernet

open Primitives Exchange

section Agreement

variable [Primitives] {channel : String} {me : KeypairFile} {d d' : Datadir}
  {keys updated : List ChannelKey} {offers : List KeyOffer} {U : Set Bytes}

/-! ## One keyring -/

omit [Primitives] in
/-- The keyring a directory is read to hold. -/
theorem loadKeys_put {dir : Dir} :
    loadKeys channel (d.put channel { dir with channelKeys := .value keys }) = .ok keys := by
  simp [loadKeys]

/-- **What generating does**: the new key is put last. -/
theorem exec_generateChannelKey {dir : Dir} {raw : Bytes}
    (hdir : d.channels[channel]? = some dir) (hload : loadKeys channel d = .ok keys) :
    (generateChannelKey channel raw).exec d =
      (.ok (.ofRaw raw), d.put channel { dir with
        channelKeys :=
          .value (keys.filter (·.id != (ChannelKey.ofRaw raw).id) ++ [.ofRaw raw]) }) := by
  rw [generateChannelKey, Op.exec_query_bind, openDir_ok.2 hdir]
  simp only
  rw [Op.exec_query_bind, hload]
  simp only
  rw [saveKeys, Op.exec_bind_of_ok (exec_modifyDir hdir), Op.exec_pure]

/-- Where the call fails, the keyring stays. -/
theorem generateChannelKey_keys (raw : Bytes) (hload : loadKeys channel d = .ok keys) :
    (∃ e, (generateChannelKey channel raw).exec d = (.error e, d)) ∨
      ∃ d', (generateChannelKey channel raw).exec d = (.ok (.ofRaw raw), d') ∧
        loadKeys channel d' =
          .ok (keys.filter (·.id != (ChannelKey.ofRaw raw).id) ++ [.ofRaw raw]) := by
  cases hopen : openDir channel d with
  | error e => exact Or.inl ⟨e, by rw [generateChannelKey, Op.exec_query_bind, hopen]⟩
  | ok dir =>
    exact Or.inr ⟨_, exec_generateChannelKey (openDir_ok.1 hopen) hload, loadKeys_put⟩

/-- The key an accepted offer holds. -/
theorem openKeyOffer_ok {offer : KeyOffer} {raw : Bytes}
    (h : openKeyOffer channel me offer = .ok raw) : hashHex raw = offer.keyId := by
  simp only [openKeyOffer, bind_eq_ok, bailIf_eq_ok, orBail_eq_ok, pure_eq_ok, not_not] at h
  obtain ⟨_, -, _, -, _, -, _, -, _, -, _, -, _, -, _, -, _, hid, rfl⟩ := h
  exact hid

/-- **What one offer does**: its key is put last, unless its id is there. -/
theorem acceptKeyOffer_ok {offer : KeyOffer} :
    acceptKeyOffer channel me keys offer = .ok updated ↔
      ∃ raw, openKeyOffer channel me offer = .ok raw ∧
        updated = if offer.keyId ∈ keys.map ChannelKey.id then keys else keys ++ [.ofRaw raw] := by
  simp only [acceptKeyOffer, bind_eq_ok]
  refine exists_congr fun raw => and_congr_right fun hraw => ?_
  have hany : keys.any (·.id == offer.keyId) = true ↔ offer.keyId ∈ keys.map ChannelKey.id := by
    rw [List.any_eq_true, List.mem_map]
    exact exists_congr fun key => and_congr_right fun _ => beq_iff_eq
  by_cases h : offer.keyId ∈ keys.map ChannelKey.id
  · rw [if_pos (hany.2 h), if_pos h, pure_eq_ok, eq_comm]
  · rw [if_neg fun h' => h (hany.1 h'), if_neg h, pure_eq_ok, eq_comm, ChannelKey.ofRaw,
      openKeyOffer_ok hraw]

/-- Keys that were generated from bytes of `U`. -/
def Genuine (U : Set Bytes) (generated : List ChannelKey) : Prop :=
  ∀ key ∈ generated, ∃ raw ∈ U, key = .ofRaw raw

/-- **An id is one key.** -/
theorem Genuine.eq_of_id_eq {generated : List ChannelKey} (hU : Set.InjOn blake3 U)
    (h : Genuine U generated) {key key' : ChannelKey} (hkey : key ∈ generated)
    (hkey' : key' ∈ generated) (hid : key.id = key'.id) : key = key' := by
  obtain ⟨raw, hraw, rfl⟩ := h key hkey
  obtain ⟨raw', hraw', rfl⟩ := h key' hkey'
  rw [hashHex_inj_on hU hraw hraw' hid]

/-- So what an accepted offer holds is the key of its id. -/
theorem Genuine.ofRaw_mem {generated : List ChannelKey} (hU : Set.InjOn blake3 U)
    (h : Genuine U generated) {raw : Bytes} (hraw : raw ∈ U) {key : ChannelKey}
    (hkey : key ∈ generated) (hid : hashHex raw = key.id) : ChannelKey.ofRaw raw = key := by
  obtain ⟨raw', hraw', rfl⟩ := h key hkey
  rw [hashHex_inj_on hU hraw hraw' hid]

/-- What the offers hold, once opened. -/
def opened (channel : String) (me : KeypairFile) (offers : List KeyOffer) : Set Bytes :=
  {raw | ∃ offer ∈ offers, openKeyOffer channel me offer = .ok raw}

/-- **What the loop does**: offers of keys that were generated teach the
keyring those keys. -/
theorem replay_acceptKeyOffer {generated learned : List ChannelKey}
    (hU : Set.InjOn blake3 U) (hgenuine : Genuine U generated) (hkeys : keys ⊆ generated)
    (hlearned : learned ⊆ generated)
    (hids : offers.map KeyOffer.keyId = learned.map ChannelKey.id)
    (hopened : opened channel me offers ⊆ U)
    (h : Replay.replay (acceptKeyOffer channel me) keys offers = .ok updated) :
    updated = learn keys learned := by
  induction offers generalizing keys learned with
  | nil =>
    cases h
    obtain rfl : learned = [] := by simpa using hids.symm
    rfl
  | cons offer offers ih =>
    obtain ⟨key, learned, rfl⟩ : ∃ key rest, learned = key :: rest := by
      cases learned with
      | nil => simp at hids
      | cons key rest => exact ⟨key, rest, rfl⟩
    simp only [List.map_cons, List.cons.injEq] at hids
    obtain ⟨hid, hids⟩ := hids
    obtain ⟨hkey, hlearned⟩ := List.cons_subset.1 hlearned
    obtain ⟨keys', hstep, hrest⟩ := Replay.replay_cons_ok.1 h
    obtain ⟨raw, hraw, rfl⟩ := acceptKeyOffer_ok.1 hstep
    have hkeyId : hashHex raw = key.id := (openKeyOffer_ok hraw).trans hid
    rw [hgenuine.ofRaw_mem hU (hopened ⟨offer, List.mem_cons_self, hraw⟩) hkey hkeyId, hid] at hrest
    have hmem : key.id ∈ keys.map ChannelKey.id ↔ key ∈ keys := by
      constructor
      · intro h
        obtain ⟨key', hkey', hid'⟩ := List.mem_map.1 h
        rwa [← hgenuine.eq_of_id_eq hU (hkeys hkey') hkey hid']
      · exact List.mem_map_of_mem
    rw [if_congr hmem rfl rfl] at hrest
    have hrestOpened : opened channel me offers ⊆ U := fun raw ⟨o, ho, hraw⟩ =>
      hopened ⟨o, List.mem_cons_of_mem _ ho, hraw⟩
    rw [learn_cons]
    refine ih ?_ hlearned hids hrestOpened hrest
    split
    · exact hkeys
    · exact List.append_subset.2 ⟨hkeys, by simpa using hkey⟩

/-- **What accepting does**: the keyring learns the keys offered, or, where
the call fails, stays. -/
theorem acceptKeyOffers_keys {generated learned : List ChannelKey}
    (hU : Set.InjOn blake3 U) (hgenuine : Genuine U generated) (hkeys : keys ⊆ generated)
    (hlearned : learned ⊆ generated)
    (hids : offers.map KeyOffer.keyId = learned.map ChannelKey.id)
    (hopened : opened channel me offers ⊆ U) (hload : loadKeys channel d = .ok keys) :
    (∃ e, (acceptKeyOffers channel me offers).exec d = (.error e, d)) ∨
      ∃ n d', (acceptKeyOffers channel me offers).exec d = (.ok n, d') ∧
        loadKeys channel d' = .ok (learn keys learned) := by
  rw [acceptKeyOffers, Op.exec_query_bind]
  cases hopen : openDir channel d with
  | error e => exact Or.inl ⟨e, rfl⟩
  | ok dir =>
    simp only
    rw [Op.exec_query_bind, hload]
    simp only
    rw [Op.exec_except_bind]
    cases hreplay : Replay.replay (acceptKeyOffer channel me) keys offers with
    | error e => exact Or.inl ⟨e, rfl⟩
    | ok updated =>
      obtain rfl := replay_acceptKeyOffer hU hgenuine hkeys hlearned hids hopened hreplay
      refine Or.inr ?_
      simp only
      split
      · rw [saveKeys, Op.exec_bind_of_ok (exec_modifyDir (openDir_ok.1 hopen)), Op.exec_pure]
        exact ⟨_, _, rfl, loadKeys_put⟩
      · -- nothing was added
        rename_i hnone
        have hlonger : keys <+: learn keys learned := prefix_learn
        have hlength := hlonger.length_le
        have hsame : learn keys learned = keys := (hlonger.eq_of_length (by omega)).symm
        rw [Op.exec_pure, hsame]
        exact ⟨_, _, rfl, hload⟩

/-- Offers that open are accepted. -/
theorem exists_acceptKeyOffers {dir : Dir} (hopen : openDir channel d = .ok dir)
    (hload : loadKeys channel d = .ok keys)
    (hoffers : ∀ offer ∈ offers, ∃ raw, openKeyOffer channel me offer = .ok raw) :
    ∃ n d', (acceptKeyOffers channel me offers).exec d = (.ok n, d') := by
  have hreplay : ∃ updated, Replay.replay (acceptKeyOffer channel me) keys offers =
      .ok updated := by
    clear hload
    induction offers generalizing keys with
    | nil => exact ⟨keys, rfl⟩
    | cons offer offers ih =>
      obtain ⟨raw, hraw⟩ := hoffers offer List.mem_cons_self
      obtain ⟨updated, hrest⟩ := ih (fun o ho => hoffers o (List.mem_cons_of_mem _ ho))
      exact ⟨updated, Replay.replay_cons_ok.2 ⟨_, acceptKeyOffer_ok.2 ⟨raw, hraw, rfl⟩, hrest⟩⟩
  obtain ⟨updated, hreplay⟩ := hreplay
  rw [acceptKeyOffers, Op.exec_query_bind, hopen]
  simp only
  rw [Op.exec_query_bind, hload]
  simp only
  rw [Op.exec_except_bind, hreplay]
  simp only
  split
  · rw [saveKeys, Op.exec_bind_of_ok (exec_modifyDir (openDir_ok.1 hopen)), Op.exec_pure]
    exact ⟨_, _, rfl⟩
  · exact ⟨_, _, rfl⟩

/-- Each offer made is of the key at its place. -/
theorem makeKeyOffers_ok {recipient : String} {nonces : ℕ → Bytes}
    (h : makeKeyOffers channel me recipient nonces d = .ok offers) :
    ∃ keys, loadKeys channel d = .ok keys ∧
      offers.map KeyOffer.keyId = keys.map ChannelKey.id := by
  rw [makeKeyOffers, Query.bind_ok] at h
  obtain ⟨keys, hload, h⟩ := h
  refine ⟨keys, hload, ?_⟩
  have hoffer : ∀ i, (keys.zipIdx i).mapM (fun entry =>
      makeKeyOffer channel me recipient (nonces entry.2) entry.1) = .ok offers →
      offers.map KeyOffer.keyId = keys.map ChannelKey.id := by
    clear h hload
    induction keys generalizing offers with
    | nil =>
      intro i h
      cases h
      rfl
    | cons key keys ih =>
      intro i h
      rw [List.zipIdx_cons, mapM_ok_iff, List.forall₂_cons_left_iff] at h
      obtain ⟨offer, rest, hoffer, hrest, rfl⟩ := h
      simp only [makeKeyOffer, bind_eq_ok, pure_eq_ok] at hoffer
      obtain ⟨_, -, _, -, _, -, rfl⟩ := hoffer
      rw [List.map_cons, List.map_cons, ih (i + 1) (mapM_ok_iff.2 hrest)]
  exact hoffer 0 h

/-! ## The nodes of a channel -/

/-- The nodes that share a channel, the offers they have made, and the keys
that were generated, the newest last. -/
structure KeyNet (ι : Type) where
  nodes : ι → Datadir
  offered : List KeyOffer
  generated : List ChannelKey

/-- What happens to the keyrings. -/
inductive KeyEvent (ι : Type)
  | generate (i : ι) (raw : Bytes)
  | offer (i : ι) (recipient : String) (nonces : ℕ → Bytes)
  | accept (i : ι) (offers : List KeyOffer)

variable {ι : Type} [DecidableEq ι] {identity : ι → KeypairFile} {net net' : KeyNet ι}

/-- The nodes after a call, which may fail. -/
def KeyNet.exec (channel : String) (identity : ι → KeypairFile) (net : KeyNet ι) :
    KeyEvent ι → KeyNet ι
  | .generate i raw =>
    let (made, d) := (generateChannelKey channel raw).exec (net.nodes i)
    { net with
      nodes := Function.update net.nodes i d
      generated := net.generated ++ made.toOption.toList }
  | .offer i recipient nonces =>
    let made := makeKeyOffers channel (identity i) recipient nonces (net.nodes i)
    { net with offered := net.offered ++ made.toOption.getD [] }
  | .accept i offers =>
    { net with
      nodes := Function.update net.nodes i
        ((acceptKeyOffers channel (identity i) offers).exec (net.nodes i)).2 }

/-- Nodes are honest: what is accepted was offered by one of them. -/
def KeyEvent.Honest (net : KeyNet ι) : KeyEvent ι → Prop
  | .accept _ offers => offers ⊆ net.offered
  | _ => True

/-- The bytes whose hash a call takes for a key's id. -/
def KeyEvent.hashed (channel : String) (identity : ι → KeypairFile) : KeyEvent ι → Set Bytes
  | .generate _ raw => {raw}
  | .offer .. => ∅
  | .accept i offers => opened channel (identity i) offers

/-- One call at one of the nodes. -/
def KeyStep (channel : String) (identity : ι → KeypairFile) (U : Set Bytes) (net : KeyNet ι)
    (event : KeyEvent ι) (net' : KeyNet ι) : Prop :=
  event.Honest net ∧ event.hashed channel identity ⊆ U ∧ net' = net.exec channel identity event

/-- Nodes without keys. -/
def KeyNet.Start (channel : String) (net : KeyNet ι) : Prop :=
  (∀ i, loadKeys channel (net.nodes i) = .ok []) ∧ net.offered = [] ∧ net.generated = []

/-- **What holds of the keyrings**: every key was generated, and stands
once. -/
structure KeyNet.Ok (channel : String) (U : Set Bytes) (net : KeyNet ι) : Prop where
  genuine : Genuine U net.generated
  keyrings : ∀ i, ∃ keys, loadKeys channel (net.nodes i) = .ok keys ∧ keys ⊆ net.generated ∧
    keys.Nodup
  offers : ∀ offer ∈ net.offered, offer.keyId ∈ net.generated.map ChannelKey.id

omit [DecidableEq ι] in
theorem KeyNet.Start.ok (h : net.Start channel) : net.Ok channel U where
  genuine := by simp [Genuine, h.2.2]
  keyrings i := ⟨[], h.1 i, List.nil_subset _, List.nodup_nil⟩
  offers := by simp [h.2.1]

omit [Primitives] in
/-- The keys that offers are of, where they were generated. -/
theorem exists_learned {generated : List ChannelKey}
    (h : ∀ offer ∈ offers, offer.keyId ∈ generated.map ChannelKey.id) :
    ∃ learned, learned ⊆ generated ∧
      offers.map KeyOffer.keyId = learned.map ChannelKey.id := by
  induction offers with
  | nil => exact ⟨[], List.nil_subset _, rfl⟩
  | cons offer offers ih =>
    obtain ⟨learned, hlearned, hids⟩ := ih fun o ho => h o (List.mem_cons_of_mem _ ho)
    obtain ⟨key, hkey, hid⟩ := List.mem_map.1 (h offer List.mem_cons_self)
    exact ⟨key :: learned, List.cons_subset.2 ⟨hkey, hlearned⟩,
      by rw [List.map_cons, List.map_cons, hid, hids]⟩

/-- **One call keeps them.** -/
theorem keyNet_step (hU : Set.InjOn blake3 U) (h : net.Ok channel U) {event : KeyEvent ι}
    (hstep : KeyStep channel identity U net event net') : net'.Ok channel U := by
  obtain ⟨hhonest, hhashed, rfl⟩ := hstep
  cases event with
  | generate i raw =>
    obtain ⟨keys, hload, hkeys, hnodup⟩ := h.keyrings i
    rw [KeyNet.exec]
    rcases generateChannelKey_keys raw hload with ⟨e, hexec⟩ | ⟨d', hexec, hload'⟩
    · rw [hexec]
      simpa [Except.toOption] using h
    · rw [hexec]
      have hraw : raw ∈ U := hhashed rfl
      refine ⟨?_, fun j => ?_, fun offer hoffer => ?_⟩
      · intro key hkey
        rcases List.mem_append.1 hkey with hkey | hkey
        · exact h.genuine key hkey
        · exact ⟨raw, hraw, by simpa [Except.toOption] using hkey⟩
      · by_cases hj : j = i
        · subst hj
          refine ⟨_, by simpa using hload', ?_, ?_⟩
          · refine List.append_subset.2 ⟨?_, by simp [Except.toOption]⟩
            exact fun key hkey => List.mem_append_left _ (hkeys (List.mem_filter.1 hkey).1)
          · refine List.nodup_append.2 ⟨hnodup.filter _, List.nodup_singleton _, ?_⟩
            rintro key hkey _ hlast rfl
            obtain rfl := List.mem_singleton.1 hlast
            simpa using (List.mem_filter.1 hkey).2
        · obtain ⟨keys', hload', hkeys', hnodup'⟩ := h.keyrings j
          exact ⟨keys', by simpa [Function.update_of_ne hj] using hload',
            fun key hkey => List.mem_append_left _ (hkeys' hkey), hnodup'⟩
      · rw [List.map_append]
        exact List.mem_append_left _ (h.offers offer hoffer)
  | offer i recipient nonces =>
    rw [KeyNet.exec]
    refine ⟨h.genuine, h.keyrings, fun offer hoffer => ?_⟩
    rcases List.mem_append.1 hoffer with hoffer | hoffer
    · exact h.offers offer hoffer
    · cases hmade : makeKeyOffers channel (identity i) recipient nonces (net.nodes i) with
      | error e => simp [hmade, Except.toOption] at hoffer
      | ok offers =>
        rw [hmade] at hoffer
        obtain ⟨keys, hload, hids⟩ := makeKeyOffers_ok hmade
        obtain ⟨keys', hload', hkeys, -⟩ := h.keyrings i
        cases hload.symm.trans hload'
        have hid : offer.keyId ∈ keys.map ChannelKey.id := hids ▸ List.mem_map_of_mem hoffer
        exact List.map_subset _ hkeys hid
  | accept i offers =>
    obtain ⟨keys, hload, hkeys, hnodup⟩ := h.keyrings i
    obtain ⟨learned, hlearned, hids⟩ := exists_learned fun o ho => h.offers o (hhonest ho)
    rw [KeyNet.exec]
    refine ⟨h.genuine, fun j => ?_, h.offers⟩
    by_cases hj : j = i
    · subst hj
      rcases acceptKeyOffers_keys hU h.genuine hkeys hlearned hids hhashed hload with
        ⟨e, hexec⟩ | ⟨n, d', hexec, hload'⟩
      · exact ⟨keys, by simpa [hexec] using hload, hkeys, hnodup⟩
      · exact ⟨_, by simpa [hexec] using hload', learn_subset hkeys hlearned, nodup_learn hnodup⟩
    · obtain ⟨keys', hload', hkeys', hnodup'⟩ := h.keyrings j
      exact ⟨keys', by simpa [Function.update_of_ne hj] using hload', hkeys', hnodup'⟩

/-! ## A session -/

/-- **Both sides accept all of the other's offers**, in the order of a
session: the responder offers, the initiator accepts and then offers. -/
structure KeysExchanged (channel : String) (initiator responder : KeypairFile) (U : Set Bytes)
    (a b a' b' : Datadir) : Prop where
  toInitiator : ∃ nonces offers n,
    makeKeyOffers channel responder initiator.publicKey nonces b = .ok offers ∧
      (acceptKeyOffers channel initiator offers).exec a = (.ok n, a') ∧
      opened channel initiator offers ⊆ U
  toResponder : ∃ nonces offers n,
    makeKeyOffers channel initiator responder.publicKey nonces a' = .ok offers ∧
      (acceptKeyOffers channel responder offers).exec b = (.ok n, b') ∧
      opened channel responder offers ⊆ U

/-- **After a session** each side's keyring is its own with what it lacked
of the other's behind it. -/
theorem loadKeys_exchanged {generated held held' : List ChannelKey} {initiator responder : KeypairFile}
    {a b a' b' : Datadir} (hU : Set.InjOn blake3 U) (hgenuine : Genuine U generated)
    (hheld : held ⊆ generated) (hnodup : held.Nodup) (hheld' : held' ⊆ generated)
    (hnodup' : held'.Nodup) (hload : loadKeys channel a = .ok held)
    (hload' : loadKeys channel b = .ok held')
    (h : KeysExchanged channel initiator responder U a b a' b') :
    loadKeys channel a' = .ok (appendNew held held') ∧
      loadKeys channel b' = .ok (appendNew held' held) := by
  obtain ⟨nonces, offers, n, hmade, haccepted, hopened⟩ := h.toInitiator
  obtain ⟨nonces', offers', n', hmade', haccepted', hopened'⟩ := h.toResponder
  -- the initiator learns the responder's keys
  obtain ⟨keys, hkeys, hids⟩ := makeKeyOffers_ok hmade
  cases hload'.symm.trans hkeys
  have ha : loadKeys channel a' = .ok (appendNew held held') := by
    rcases acceptKeyOffers_keys hU hgenuine hheld hheld' hids hopened hload with
      ⟨e, hexec⟩ | ⟨m, d', hexec, hafter⟩
    · cases haccepted.symm.trans hexec
    · cases haccepted.symm.trans hexec
      rwa [learn_eq_appendNew hnodup'] at hafter
  refine ⟨ha, ?_⟩
  -- and the responder those of the initiator, which are no more than it had
  obtain ⟨keys', hkeys', hids'⟩ := makeKeyOffers_ok hmade'
  cases ha.symm.trans hkeys'
  have hboth : appendNew held held' ⊆ generated := fun k hk =>
    (mem_appendNew.1 hk).elim (hheld ·) (hheld' ·)
  rcases acceptKeyOffers_keys hU hgenuine hheld' hboth hids' hopened' hload' with
    ⟨e, hexec⟩ | ⟨m, d', hexec, hafter⟩
  · cases haccepted'.symm.trans hexec
  · cases haccepted'.symm.trans hexec
    rwa [learn_eq_appendNew (nodup_appendNew hnodup hnodup'), appendNew_appendNew] at hafter

/-- The newest of some keys, by when they were generated. -/
def Newest (generated held : List ChannelKey) (key : ChannelKey) : Prop :=
  key ∈ held ∧ ∃ older newer, generated = older ++ key :: newer ∧ ∀ k ∈ newer, k ∉ held

omit [Primitives] in
theorem exists_newest {generated held : List ChannelKey} (h : ∃ key ∈ generated, key ∈ held) :
    ∃ key, Newest generated held key := by
  induction generated using List.reverseRecOn with
  | nil => simp at h
  | append_singleton older last ih =>
    by_cases hlast : last ∈ held
    · exact ⟨last, hlast, older, [], rfl, by simp⟩
    · obtain ⟨key, hkey, hheld⟩ := h
      have hne : key ≠ last := fun h => hlast (h ▸ hheld)
      obtain ⟨newest, hnewest, older, newer, rfl, hnewer⟩ := ih
        ⟨key, by simpa [hne] using hkey, hheld⟩
      refine ⟨newest, hnewest, older, newer ++ [last], by simp, ?_⟩
      intro k hk
      rcases List.mem_append.1 hk with hk | hk
      · exact hnewer k hk
      · rwa [List.mem_singleton.1 hk]

omit [Primitives] in
theorem currentChannelKey_ok {key : ChannelKey} (h : loadKeys channel d = .ok keys) :
    currentChannelKey channel d = .ok key ↔ keys.getLast? = some key := by
  simp only [currentChannelKey, Query.bind_ok, h, Query.orBail_apply, orBail_eq_ok]
  simp

/-- **When two members agree on the newest key**: after a session between
nodes of any history, both write under the newest of all keys either held
exactly where one of the two keyrings led with that key. -/
theorem members_agree_iff (hU : Set.InjOn blake3 U) {start : KeyNet ι} {events : List (KeyEvent ι)}
    (hrun : Run (KeyStep channel identity U) start events net) (hstart : start.Start channel)
    {i j : ι} {a b : Datadir}
    (hsession : KeysExchanged channel (identity i) (identity j) U (net.nodes i) (net.nodes j) a b) :
    ∃ held held', loadKeys channel (net.nodes i) = .ok held ∧
      loadKeys channel (net.nodes j) = .ok held' ∧
      (held ++ held' ≠ [] → ∃ key, Newest net.generated (held ++ held') key) ∧
      ∀ key, Newest net.generated (held ++ held') key →
        ((currentChannelKey channel a = .ok key ∧ currentChannelKey channel b = .ok key) ↔
          Leads held held' key ∨ Leads held' held key) := by
  have hok : net.Ok channel U :=
    hrun.invariant (fun _ _ _ h hstep => keyNet_step hU h hstep) hstart.ok
  obtain ⟨held, hload, hheld, hnodup⟩ := hok.keyrings i
  obtain ⟨held', hload', hheld', hnodup'⟩ := hok.keyrings j
  refine ⟨held, held', hload, hload', fun hne => ?_, fun key _ => ?_⟩
  · obtain ⟨key, hkey⟩ := List.exists_mem_of_ne_nil _ hne
    exact exists_newest ⟨key, List.append_subset.2 ⟨hheld, hheld'⟩ hkey, hkey⟩
  · obtain ⟨ha, hb⟩ := loadKeys_exchanged hU hok.genuine hheld hnodup hheld' hnodup' hload hload'
      hsession
    rw [currentChannelKey_ok ha, currentChannelKey_ok hb, getLast?_exchange]

end Agreement

/-! ## Two rotations -/

section Rotations

open Simulated

attribute [local instance] simulated

/-- The bytes a node draws. -/
def drawn (n : UInt8) : Bytes := List.replicate 32 n

/-- A nonce. -/
def nonce : Bytes := List.replicate 24 0

/-- The secret two identities share, the same seen from either. -/
def sharedBy (m n : UInt8) : Bytes := List.replicate 32 (m + n)

theorem exchange_identity (m n : UInt8) :
    exchange (identity m) (identity n).publicKey = .ok (sharedBy m n) := by
  have hshared : Primitives.sharedSecret (identity m).secretKey (List.replicate 32 n) =
      some (sharedBy m n) := by
    change Simulated.sharedSecret (hexEncode _) _ = _
    rw [Simulated.sharedSecret, hexDecode_hexEncode]
    simp [sharedBy]
  simp only [exchange, identity, bind_eq_ok, hexDecode_hexEncode, orBail_eq_ok, bailIf_eq_ok]
  exact ⟨_, rfl, (), by simp, hshared⟩

theorem offerWrapKey_identity (m n : UInt8) (channel keyId : String) :
    offerWrapKey (identity m) (identity n).publicKey channel keyId =
      offerWrapKey (identity n) (identity m).publicKey channel keyId := by
  simp only [offerWrapKey, exchange_identity]
  rw [sharedBy, UInt8.add_comm, ← sharedBy]

/-- **An offer opens to the key it was made of.** -/
theorem exists_offer (m n k : UInt8) (channel : String) :
    ∃ offer, makeKeyOffer channel (identity m) (identity n).publicKey nonce (.ofRaw (drawn k)) =
        .ok offer ∧
      openKeyOffer channel (identity n) offer = .ok (drawn k) := by
  have hdecode : decodeKey (.ofRaw (drawn k)) = .ok (drawn k) := by
    simp only [decodeKey, ChannelKey.ofRaw, bind_eq_ok, orBail_eq_ok, bailIf_eq_ok, pure_eq_ok]
    exact ⟨_, base64Decode_base64Encode _, (), by simp [drawn], rfl⟩
  obtain ⟨wrapKey, hwrap⟩ : ∃ wrapKey, offerWrapKey (identity m) (identity n).publicKey channel
      (ChannelKey.ofRaw (drawn k)).id = .ok wrapKey :=
    ⟨_, by rw [offerWrapKey, exchange_identity]; rfl⟩
  refine ⟨_, bind_eq_ok.2 ⟨_, hdecode, bind_eq_ok.2 ⟨_, hwrap,
    bind_eq_ok.2 ⟨_, signBytes_identity _ _, rfl⟩⟩⟩, ?_⟩
  rw [offerWrapKey_identity] at hwrap
  simp only [openKeyOffer, bind_eq_ok, bailIf_eq_ok, orBail_eq_ok, pure_eq_ok]
  refine ⟨(), by simp, (), verifyBytes_signatureOf m _, wrapKey, hwrap, nonce,
    base64Decode_base64Encode _, (), by simp [nonce], _, base64Decode_base64Encode _, drawn k,
    Simulated.decrypt_encrypt _ _ _ _, (), by simp [drawn], (), by simp [ChannelKey.ofRaw], rfl⟩

/-- The two members. -/
def member : Bool → KeypairFile
  | true => identity 1
  | false => identity 2

/-- Members that have the channel, and no key. -/
def keyless : KeyNet Bool where
  nodes _ := ({} : Datadir).put general.fullName {}
  offered := []
  generated := []

theorem start_keyless : keyless.Start general.fullName :=
  ⟨fun _ => by simp [keyless, loadKeys], rfl, rfl⟩

/-- Each member rotates once, the second after the first. -/
def rotations : List (KeyEvent Bool) := [.generate true (drawn 1), .generate false (drawn 2)]

theorem injOn_drawn : Set.InjOn blake3 {drawn 1, drawn 2} := by
  have hne : Simulated.hash (drawn 1) ≠ Simulated.hash (drawn 2) := by decide +kernel
  rintro x (rfl | rfl) y (rfl | rfl) h
  · rfl
  · exact absurd h hne
  · exact absurd h.symm hne
  · rfl

/-- A member's node, with a keyring. -/
def holding (key : ChannelKey) : Datadir :=
  ({} : Datadir).put general.fullName { channelKeys := .value [key] }

/-- The members after the rotations, each with its own key. -/
noncomputable def rotated : KeyNet Bool where
  nodes
    | true => holding (.ofRaw (drawn 1))
    | false => holding (.ofRaw (drawn 2))
  offered := []
  generated := [.ofRaw (drawn 1), .ofRaw (drawn 2)]

theorem exec_generateChannelKey_keyless (n : UInt8) :
    (generateChannelKey general.fullName (drawn n)).exec (({} : Datadir).put general.fullName {}) =
      (.ok (.ofRaw (drawn n)), holding (.ofRaw (drawn n))) := by
  rw [exec_generateChannelKey (getElem?_put_self _ _ _) (start_keyless.1 true)]
  simp [holding]

theorem run_rotated :
    Run (KeyStep general.fullName member {drawn 1, drawn 2}) keyless rotations rotated := by
  refine .snoc (.snoc (.nil _) ⟨trivial, by simp [KeyEvent.hashed], rfl⟩)
    ⟨trivial, by simp [KeyEvent.hashed], ?_⟩
  have hnode : (Function.update keyless.nodes true (holding (.ofRaw (drawn 1)))) false =
      ({} : Datadir).put general.fullName {} := by
    rw [Function.update_of_ne (by decide)]
    rfl
  have hfirst : keyless.exec general.fullName member (.generate true (drawn 1)) =
      { keyless with
        nodes := Function.update keyless.nodes true (holding (.ofRaw (drawn 1)))
        generated := [.ofRaw (drawn 1)] } := by
    rw [KeyNet.exec, keyless, exec_generateChannelKey_keyless]
    rfl
  rw [hfirst, KeyNet.exec]
  simp only [hnode, exec_generateChannelKey_keyless]
  rw [rotated, KeyNet.mk.injEq]
  refine ⟨?_, rfl, rfl⟩
  funext i
  cases i with
  | true => rfl
  | false => rfl

theorem loadKeys_holding (key : ChannelKey) : loadKeys general.fullName (holding key) = .ok [key] := by
  simp [holding, loadKeys]

/-- Offers of drawn keys are made, and open. -/
theorem exists_makeKeyOffers (m n : UInt8) {d : Datadir} {keys : List ChannelKey}
    (hload : loadKeys general.fullName d = .ok keys)
    (hkeys : keys ⊆ [.ofRaw (drawn 1), .ofRaw (drawn 2)]) :
    ∃ offers, makeKeyOffers general.fullName (identity m) (identity n).publicKey (fun _ => nonce) d =
        .ok offers ∧
      ∀ offer ∈ offers, ∃ raw ∈ ({drawn 1, drawn 2} : Set Bytes),
        openKeyOffer general.fullName (identity n) offer = .ok raw := by
  suffices ∀ i, ∃ offers, (keys.zipIdx i).mapM (fun entry =>
      makeKeyOffer general.fullName (identity m) (identity n).publicKey nonce entry.1) = .ok offers ∧
      ∀ offer ∈ offers, ∃ raw ∈ ({drawn 1, drawn 2} : Set Bytes),
        openKeyOffer general.fullName (identity n) offer = .ok raw by
    obtain ⟨offers, hmade, hopen⟩ := this 0
    exact ⟨offers, Query.bind_ok.2 ⟨keys, hload, hmade⟩, hopen⟩
  clear hload
  induction keys with
  | nil => exact fun _ => ⟨[], rfl, by simp⟩
  | cons key keys ih =>
    intro i
    obtain ⟨hkey, hrest⟩ := List.cons_subset.1 hkeys
    obtain ⟨k, hk, rfl⟩ : ∃ k, drawn k ∈ ({drawn 1, drawn 2} : Set Bytes) ∧
        key = .ofRaw (drawn k) := by
      rcases List.mem_cons.1 hkey with rfl | hkey
      · exact ⟨1, Or.inl rfl, rfl⟩
      · exact ⟨2, Or.inr rfl, List.mem_singleton.1 hkey⟩
    obtain ⟨offer, hmade, hopen⟩ := exists_offer m n k general.fullName
    obtain ⟨offers, hoffers, hopens⟩ := ih hrest (i + 1)
    refine ⟨offer :: offers, mapM_ok_iff.2 (.cons hmade (mapM_ok_iff.1 hoffers)), ?_⟩
    exact List.forall_mem_cons.2 ⟨⟨_, hk, hopen⟩, hopens⟩

theorem drawnKeys_ne : ChannelKey.ofRaw (drawn 1) ≠ ChannelKey.ofRaw (drawn 2) := by
  intro h
  have : hexEncode (drawn 1) = hexEncode (drawn 2) := congrArg ChannelKey.key h
  rw [hexEncode_inj] at this
  exact absurd this (by decide)

theorem genuine_rotated : Genuine {drawn 1, drawn 2} rotated.generated := by
  intro key hkey
  rcases List.mem_cons.1 hkey with rfl | hkey
  · exact ⟨_, Or.inl rfl, rfl⟩
  · exact ⟨_, Or.inr rfl, List.mem_singleton.1 hkey⟩

/-- The members hold a session. -/
theorem exists_session : ∃ a b,
    KeysExchanged general.fullName (member true) (member false) {drawn 1, drawn 2}
      (rotated.nodes true) (rotated.nodes false) a b := by
  have hload := loadKeys_holding (.ofRaw (drawn 1))
  have hload' := loadKeys_holding (.ofRaw (drawn 2))
  have hopen : ∀ key, openDir general.fullName (holding key) =
      .ok { channelKeys := .value [key] } := fun key => openDir_ok.2 (getElem?_put_self _ _ _)
  have opened_subset : ∀ {n : UInt8} {offers : List KeyOffer},
      (∀ offer ∈ offers, ∃ raw ∈ ({drawn 1, drawn 2} : Set Bytes),
        openKeyOffer general.fullName (identity n) offer = .ok raw) →
      opened general.fullName (identity n) offers ⊆ {drawn 1, drawn 2} := by
    rintro n offers h raw ⟨offer, hoffer, hraw⟩
    obtain ⟨raw', hmem, hraw'⟩ := h offer hoffer
    rwa [Except.ok.inj (hraw.symm.trans hraw')]
  have opens : ∀ {n : UInt8} {offers : List KeyOffer},
      (∀ offer ∈ offers, ∃ raw ∈ ({drawn 1, drawn 2} : Set Bytes),
        openKeyOffer general.fullName (identity n) offer = .ok raw) →
      ∀ offer ∈ offers, ∃ raw, openKeyOffer general.fullName (identity n) offer = .ok raw :=
    fun h offer hoffer => let ⟨raw, _, hraw⟩ := h offer hoffer; ⟨raw, hraw⟩
  obtain ⟨offers, hmade, hopens⟩ := exists_makeKeyOffers 2 1 hload' (by simp)
  obtain ⟨n, a, haccepted⟩ := exists_acceptKeyOffers (hopen _) hload (opens hopens)
  obtain ⟨keys, hkeys, hids⟩ := makeKeyOffers_ok hmade
  cases hload'.symm.trans hkeys
  have ha : loadKeys general.fullName a =
      .ok (learn [.ofRaw (drawn 1)] [.ofRaw (drawn 2)]) := by
    rcases acceptKeyOffers_keys injOn_drawn genuine_rotated (by simp [rotated]) (by simp [rotated])
      hids (opened_subset hopens) hload with ⟨e, hexec⟩ | ⟨m, d', hexec, hafter⟩
    · cases haccepted.symm.trans hexec
    · cases haccepted.symm.trans hexec
      exact hafter
  obtain ⟨offers', hmade', hopens'⟩ := exists_makeKeyOffers 1 2 ha
    (learn_subset (by simp) (by simp))
  obtain ⟨n', b, haccepted'⟩ := exists_acceptKeyOffers (hopen _) hload' (opens hopens')
  exact ⟨a, b, ⟨_, offers, n, hmade, haccepted, opened_subset hopens⟩,
    ⟨_, offers', n', hmade', haccepted', opened_subset hopens'⟩⟩

theorem newest_rotated :
    Newest rotated.generated [.ofRaw (drawn 1), .ofRaw (drawn 2)] (.ofRaw (drawn 2)) :=
  ⟨by simp, [.ofRaw (drawn 1)], [], rfl, by simp⟩

/-- **The one who rotated last goes back.** After a session in which each
accepts the other's key, the first member writes under the newest key, and
the second, who generated it, under the older. -/
theorem rotation_goes_back :
    ∃ a b, Set.InjOn blake3 {drawn 1, drawn 2} ∧ keyless.Start general.fullName ∧
      Run (KeyStep general.fullName member {drawn 1, drawn 2}) keyless rotations rotated ∧
      KeysExchanged general.fullName (member true) (member false) {drawn 1, drawn 2}
        (rotated.nodes true) (rotated.nodes false) a b ∧
      Newest rotated.generated [.ofRaw (drawn 1), .ofRaw (drawn 2)] (.ofRaw (drawn 2)) ∧
      currentChannelKey general.fullName a = .ok (.ofRaw (drawn 2)) ∧
      currentChannelKey general.fullName b = .ok (.ofRaw (drawn 1)) := by
  obtain ⟨a, b, hsession⟩ := exists_session
  obtain ⟨ha, hb⟩ := loadKeys_exchanged injOn_drawn genuine_rotated (by simp [rotated])
    (List.nodup_singleton _) (by simp [rotated]) (List.nodup_singleton _) (loadKeys_holding _)
    (loadKeys_holding _) hsession
  refine ⟨a, b, injOn_drawn, start_keyless, run_rotated, hsession, newest_rotated, ?_, ?_⟩
  · rw [currentChannelKey_ok ha]
    simp [appendNew, drawnKeys_ne.symm]
  · rw [currentChannelKey_ok hb]
    simp [appendNew, drawnKeys_ne]

/-- The law there: neither keyring leads, so the two do not agree. -/
theorem members_agree_iff_rotated : ∃ a b,
    KeysExchanged general.fullName (member true) (member false) {drawn 1, drawn 2}
      (rotated.nodes true) (rotated.nodes false) a b ∧
    ((currentChannelKey general.fullName a = .ok (.ofRaw (drawn 2)) ∧
        currentChannelKey general.fullName b = .ok (.ofRaw (drawn 2))) ↔
      Leads [.ofRaw (drawn 1)] [.ofRaw (drawn 2)] (ChannelKey.ofRaw (drawn 2)) ∨
        Leads [.ofRaw (drawn 2)] [.ofRaw (drawn 1)] (ChannelKey.ofRaw (drawn 2))) := by
  obtain ⟨a, b, hsession⟩ := exists_session
  obtain ⟨held, held', hload, hload', -, hagree⟩ :=
    members_agree_iff injOn_drawn run_rotated start_keyless hsession
  cases (loadKeys_holding (.ofRaw (drawn 1))).symm.trans hload
  cases (loadKeys_holding (.ofRaw (drawn 2))).symm.trans hload'
  exact ⟨a, b, hsession, hagree _ newest_rotated⟩

end Rotations

end Embernet
