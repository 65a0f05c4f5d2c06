import Embernet.Keys.Agreement
/-!
# The keyring — what no offer can break

A keyring grows by keys drawn here and by keys opened from offers, and
both are 32 bytes under their hash. Whatever the offers are, the ids stay
apart and the keys stay: a list of offers is taken in as a whole or not at
all, and once.
-/

set_option autoImplicit false

namespace Embernet

open Primitives

section Keyring

variable [Primitives] {channel : String} {me : KeypairFile} {d d' : Datadir}
  {keys updated : List ChannelKey} {offers : List KeyOffer} {U : Set Bytes}

/-! ## What a keyring is -/

/-- Distinct ids, and under each the key whose hash it is. -/
structure Sound (keys : List ChannelKey) : Prop where
  nodup : (keys.map ChannelKey.id).Nodup
  drawn : ∀ key ∈ keys, ∃ raw, raw.length = 32 ∧ key = .ofRaw raw

theorem decodeKey_ofRaw {raw : Bytes} (h : raw.length = 32) :
    decodeKey (.ofRaw raw) = .ok raw := by
  simp only [decodeKey, ChannelKey.ofRaw, bind_eq_ok, orBail_eq_ok, bailIf_eq_ok, pure_eq_ok]
  exact ⟨raw, base64Decode_base64Encode raw, (), not_not.2 h, rfl⟩

/-- The keys are what they are named. -/
theorem Sound.decode (h : Sound keys) {key : ChannelKey} (hkey : key ∈ keys) :
    ∃ raw, decodeKey key = .ok raw ∧ raw.length = 32 ∧ key.id = hashHex raw := by
  obtain ⟨raw, hlength, rfl⟩ := h.drawn key hkey
  exact ⟨raw, decodeKey_ofRaw hlength, hlength, rfl⟩

theorem Sound.nil : Sound [] := ⟨List.nodup_nil, fun _ h => nomatch h⟩

/-- A key with a new id may be put last. -/
theorem Sound.concat (h : Sound keys) {raw : Bytes} (hlength : raw.length = 32)
    (hnew : hashHex raw ∉ keys.map ChannelKey.id) : Sound (keys ++ [.ofRaw raw]) := by
  constructor
  · rw [List.map_append, List.nodup_append]
    refine ⟨h.nodup, List.nodup_singleton _, ?_⟩
    rintro id hid id' hid' rfl
    rw [List.map_singleton, List.mem_singleton] at hid'
    rw [hid'] at hid
    exact hnew hid
  · intro key hkey
    rcases List.mem_append.1 hkey with hkey | hkey
    · exact h.drawn key hkey
    · exact ⟨raw, hlength, List.mem_singleton.1 hkey⟩

theorem Sound.filter (h : Sound keys) (p : ChannelKey → Bool) : Sound (keys.filter p) :=
  ⟨h.nodup.sublist (List.filter_sublist.map _),
    fun key hkey => h.drawn key (List.mem_of_mem_filter hkey)⟩

/-- An opened offer holds 32 bytes. -/
theorem length_openKeyOffer {offer : KeyOffer} {raw : Bytes}
    (h : openKeyOffer channel me offer = .ok raw) : raw.length = 32 := by
  simp only [openKeyOffer, bind_eq_ok, bailIf_eq_ok, orBail_eq_ok, pure_eq_ok, not_not] at h
  obtain ⟨_, -, _, -, _, -, _, -, _, -, _, -, _, -, _, hlength, _, -, rfl⟩ := h
  exact hlength

/-! ## A list of offers -/

/-- What offers that were accepted have done: keys were put last, each of
them opened from an offer, and every offer's id is there. -/
structure TakenIn (channel : String) (me : KeypairFile) (offers : List KeyOffer)
    (keys updated : List ChannelKey) : Prop where
  sound : Sound updated
  kept : keys <+: updated
  learned : ∀ key ∈ updated, key ∈ keys ∨ ∃ raw ∈ opened channel me offers, key = .ofRaw raw
  known : ∀ offer ∈ offers, offer.keyId ∈ updated.map ChannelKey.id ∧
    ∃ raw, openKeyOffer channel me offer = .ok raw

/-- One offer. -/
theorem takenIn_acceptKeyOffer {offer : KeyOffer} (hsound : Sound keys)
    (h : acceptKeyOffer channel me keys offer = .ok updated) :
    TakenIn channel me [offer] keys updated := by
  obtain ⟨raw, hraw, rfl⟩ := acceptKeyOffer_ok.1 h
  have hid := openKeyOffer_ok hraw
  by_cases hknown : offer.keyId ∈ keys.map ChannelKey.id
  · rw [if_pos hknown]
    refine ⟨hsound, List.prefix_refl _, fun key hkey => .inl hkey, fun o ho => ?_⟩
    obtain rfl := List.mem_singleton.1 ho
    exact ⟨hknown, raw, hraw⟩
  · rw [if_neg hknown]
    refine ⟨hsound.concat (length_openKeyOffer hraw) (hid ▸ hknown), List.prefix_append _ _, ?_, ?_⟩
    · intro key hkey
      rcases List.mem_append.1 hkey with hkey | hkey
      · exact .inl hkey
      · exact .inr ⟨raw, ⟨offer, List.mem_singleton_self _, hraw⟩, List.mem_singleton.1 hkey⟩
    · intro o ho
      obtain rfl := List.mem_singleton.1 ho
      refine ⟨?_, raw, hraw⟩
      rw [List.map_append, List.mem_append]
      exact .inr (List.mem_singleton.2 hid.symm)

/-- **What the loop does** with any offers. -/
theorem takenIn_replay (hsound : Sound keys)
    (h : Replay.replay (acceptKeyOffer channel me) keys offers = .ok updated) :
    TakenIn channel me offers keys updated := by
  induction offers generalizing keys with
  | nil =>
    cases h
    exact ⟨hsound, List.prefix_refl _, fun key hkey => .inl hkey, fun _ h => nomatch h⟩
  | cons offer offers ih =>
    obtain ⟨keys', hstep, hrest⟩ := Replay.replay_cons_ok.1 h
    have hone := takenIn_acceptKeyOffer hsound hstep
    have hothers := ih hone.sound hrest
    refine ⟨hothers.sound, hone.kept.trans hothers.kept, fun key hkey => ?_, fun o ho => ?_⟩
    · rcases hothers.learned key hkey with hkey | ⟨raw, ⟨o, ho, hraw⟩, rfl⟩
      · rcases hone.learned key hkey with hkey | ⟨raw, ⟨o, ho, hraw⟩, rfl⟩
        · exact .inl hkey
        · obtain rfl := List.mem_singleton.1 ho
          exact .inr ⟨raw, ⟨o, List.mem_cons_self, hraw⟩, rfl⟩
      · exact .inr ⟨raw, ⟨o, List.mem_cons_of_mem _ ho, hraw⟩, rfl⟩
    · rcases List.mem_cons.1 ho with rfl | ho
      · obtain ⟨hmem, hopens⟩ := hone.known o (List.mem_singleton_self _)
        exact ⟨List.map_subset _ hothers.kept.subset hmem, hopens⟩
      · exact hothers.known o ho

/-- **The same offers again** change nothing. -/
theorem replay_again
    (h : ∀ offer ∈ offers, offer.keyId ∈ keys.map ChannelKey.id ∧
      ∃ raw, openKeyOffer channel me offer = .ok raw) :
    Replay.replay (acceptKeyOffer channel me) keys offers = .ok keys := by
  induction offers with
  | nil => rfl
  | cons offer offers ih =>
    obtain ⟨hknown, raw, hraw⟩ := h offer List.mem_cons_self
    refine Replay.replay_cons_ok.2 ⟨keys, acceptKeyOffer_ok.2 ⟨raw, hraw, ?_⟩, ?_⟩
    · rw [if_pos hknown]
    · exact ih fun o ho => h o (List.mem_cons_of_mem _ ho)

/-- **What accepting does**: the offers are all taken in, and the number
returned is the number of keys added, or the node stays as it was. -/
theorem exec_acceptKeyOffers (me : KeypairFile) (offers : List KeyOffer)
    (hload : loadKeys channel d = .ok keys) (hsound : Sound keys) :
    (∃ e, (acceptKeyOffers channel me offers).exec d = (.error e, d)) ∨
      ∃ updated dir d', d'.channels[channel]? = some dir ∧
        (acceptKeyOffers channel me offers).exec d = (.ok (updated.length - keys.length), d') ∧
        loadKeys channel d' = .ok updated ∧ TakenIn channel me offers keys updated := by
  rw [acceptKeyOffers, Op.exec_query_bind]
  cases hopen : openDir channel d with
  | error e => exact .inl ⟨e, rfl⟩
  | ok dir =>
    have hdir := openDir_ok.1 hopen
    simp only
    rw [Op.exec_query_bind, hload]
    simp only
    rw [Op.exec_except_bind]
    cases hreplay : Replay.replay (acceptKeyOffer channel me) keys offers with
    | error e => exact .inl ⟨e, rfl⟩
    | ok updated =>
      have htaken := takenIn_replay hsound hreplay
      refine .inr ⟨updated, ?_⟩
      simp only
      split
      · rw [saveKeys, Op.exec_bind_of_ok (exec_modifyDir hdir), Op.exec_pure]
        exact ⟨_, _, getElem?_put_self _ _ _, rfl, loadKeys_put, htaken⟩
      · -- nothing was added
        rename_i hnone
        have hsame : keys = updated := htaken.kept.eq_of_length_le (by omega)
        rw [Op.exec_pure]
        exact ⟨dir, d, hdir, rfl, hsame ▸ hload, htaken⟩

/-! ## Runs -/

/-- A call that changes a keyring: 32 bytes are drawn, or offers are
taken. -/
inductive KeyringOp
  | generate (raw : {raw : Bytes // raw.length = 32})
  | accept (recipient : KeypairFile) (offers : List KeyOffer)

/-- The node after the call, returned or failed. -/
def KeyringOp.exec (channel : String) : KeyringOp → Datadir → Datadir
  | generate raw, d => ((generateChannelKey channel raw.1).exec d).2
  | accept recipient offers, d => ((acceptKeyOffers channel recipient offers).exec d).2

/-- One call as a step of the node. -/
def KeyringStep (channel : String) (d : Datadir) (op : KeyringOp) (d' : Datadir) : Prop :=
  d' = op.exec channel d

/-- The bytes a call may put under their hash. -/
def KeyringOp.hashed (channel : String) : KeyringOp → Set Bytes
  | generate raw => {raw.1}
  | accept recipient offers => opened channel recipient offers

/-- The channel has no keyring, if it is there. -/
def NoKeyring (channel : String) (d : Datadir) : Prop :=
  ∀ dir, d.channels[channel]? = some dir → dir.channelKeys = .absent

omit [Primitives] in
theorem NoKeyring.loadKeys (h : NoKeyring channel d) : Embernet.loadKeys channel d = .ok [] := by
  rw [Embernet.loadKeys]
  cases hdir : d.channels[channel]? with
  | none => rfl
  | some dir =>
    simp only [h dir hdir]
    rfl

/-- **A step keeps a keyring sound**, and every key in it, where no two of
the bytes have one hash. -/
theorem keyring_step {op : KeyringOp} (hstep : KeyringStep channel d op d')
    (hload : loadKeys channel d = .ok keys) (hsound : Sound keys) :
    ∃ updated, loadKeys channel d' = .ok updated ∧ Sound updated ∧
      (Set.InjOn blake3 U → Genuine U keys → op.hashed channel ⊆ U →
        Genuine U updated ∧ keys ⊆ updated) := by
  obtain rfl : d' = op.exec channel d := hstep
  cases op with
  | generate raw =>
    obtain ⟨raw, hlength⟩ := raw
    rcases generateChannelKey_keys raw hload with ⟨e, hexec⟩ | ⟨d', hexec, hload'⟩
    · rw [KeyringOp.exec, hexec]
      exact ⟨keys, hload, hsound, fun _ hgenuine _ => ⟨hgenuine, List.Subset.refl _⟩⟩
    · rw [KeyringOp.exec, hexec]
      refine ⟨_, hload', (hsound.filter _).concat hlength ?_, fun hU hgenuine hraw => ?_⟩
      · rintro hmem
        obtain ⟨key, hkey, hid⟩ := List.mem_map.1 hmem
        have := List.of_mem_filter hkey
        simp only [bne_iff_ne, ne_eq] at this
        exact this hid
      · have hrawU : raw ∈ U := hraw (Set.mem_singleton raw)
        constructor
        · intro key hkey
          rcases List.mem_append.1 hkey with hkey | hkey
          · exact hgenuine key (List.mem_of_mem_filter hkey)
          · exact ⟨raw, hrawU, List.mem_singleton.1 hkey⟩
        · -- a key of the same id is the same key
          intro key hkey
          obtain ⟨raw', hraw', rfl⟩ := hgenuine key hkey
          by_cases hid : hashHex raw' = hashHex raw
          · rw [hashHex_inj_on hU hraw' hrawU hid]
            exact List.mem_append_right _ (List.mem_singleton_self _)
          · refine List.mem_append_left _ (List.mem_filter.2 ⟨hkey, ?_⟩)
            simpa [ChannelKey.ofRaw] using hid
  | accept recipient offers =>
    rcases exec_acceptKeyOffers recipient offers hload hsound with
      ⟨e, hexec⟩ | ⟨updated, dir, d', -, hexec, hload', htaken⟩
    · rw [KeyringOp.exec, hexec]
      exact ⟨keys, hload, hsound, fun _ hgenuine _ => ⟨hgenuine, List.Subset.refl _⟩⟩
    · rw [KeyringOp.exec, hexec]
      refine ⟨updated, hload', htaken.sound, fun hU hgenuine hopened => ⟨fun key hkey => ?_, ?_⟩⟩
      · rcases htaken.learned key hkey with hkey | ⟨raw, hraw, rfl⟩
        · exact hgenuine key hkey
        · exact ⟨raw, hopened hraw, rfl⟩
      · exact htaken.kept.subset

/-- Every run keeps the keyring in order. -/
theorem keyring_run {ops : List KeyringOp} (hrun : Run (KeyringStep channel) d ops d')
    (hload : loadKeys channel d = .ok keys) (hsound : Sound keys) :
    ∃ updated, loadKeys channel d' = .ok updated ∧ Sound updated ∧
      (Set.InjOn blake3 U → Genuine U keys → (∀ op ∈ ops, op.hashed channel ⊆ U) →
        Genuine U updated ∧ keys ⊆ updated) := by
  induction hrun with
  | nil => exact ⟨keys, hload, hsound, fun _ hgenuine _ => ⟨hgenuine, List.Subset.refl _⟩⟩
  | snoc hrun hstep ih =>
    obtain ⟨middle, hload', hsound', hkept⟩ := ih
    obtain ⟨updated, hload'', hsound'', hkept'⟩ := keyring_step (U := U) hstep hload' hsound'
    refine ⟨updated, hload'', hsound'', fun hU hgenuine hhashed => ?_⟩
    obtain ⟨hgenuine', hsub⟩ :=
      hkept hU hgenuine fun op hop => hhashed op (List.mem_append_left _ hop)
    obtain ⟨hgenuine'', hsub'⟩ :=
      hkept' hU hgenuine' (hhashed _ (List.mem_append_right _ (List.mem_singleton_self _)))
    exact ⟨hgenuine'', fun key hkey => hsub' (hsub hkey)⟩

/-- **The keyring invariant.** After any calls on a channel that had no
keyring, whatever was offered: the ids are distinct, and each is the hash
of the 32 bytes its key decodes to; from there on no key goes or changes,
where no two of the bytes have one hash; and a list of offers leaves the
node as it was, or adds as many keys as it says and the second time
none. -/
theorem keyring_invariant {d₀ : Datadir} {ops : List KeyringOp} (hnone : NoKeyring channel d₀)
    (hrun : Run (KeyringStep channel) d₀ ops d) :
    ∃ keys, loadKeys channel d = .ok keys ∧ (keys.map ChannelKey.id).Nodup ∧
      (∀ key ∈ keys, ∃ raw, decodeKey key = .ok raw ∧ raw.length = 32 ∧ key.id = hashHex raw) ∧
      (∀ ops' d' U, Run (KeyringStep channel) d ops' d' → Set.InjOn blake3 U →
        (∀ op ∈ ops ++ ops', op.hashed channel ⊆ U) →
        ∃ keys', loadKeys channel d' = .ok keys' ∧ keys ⊆ keys') ∧
      ∀ me offers,
        (∀ e d', (acceptKeyOffers channel me offers).exec d = (.error e, d') → d' = d) ∧
        ∀ n d', (acceptKeyOffers channel me offers).exec d = (.ok n, d') →
          (∃ added, added.length = n ∧ loadKeys channel d' = .ok (keys ++ added)) ∧
            (acceptKeyOffers channel me offers).exec d' = (.ok 0, d') := by
  obtain ⟨keys, hload, hsound, -⟩ := keyring_run (U := ∅) hrun hnone.loadKeys Sound.nil
  refine ⟨keys, hload, hsound.nodup, fun key hkey => hsound.decode hkey, ?_, fun me offers => ?_⟩
  · intro ops' d' U hrun' hU hhashed
    obtain ⟨keys₁, hload₁, -, hkept⟩ := keyring_run (U := U) hrun hnone.loadKeys Sound.nil
    obtain rfl : keys = keys₁ := Except.ok.inj (hload.symm.trans hload₁)
    obtain ⟨hgenuine, -⟩ := hkept hU (fun _ h => nomatch h)
      fun op hop => hhashed op (List.mem_append_left _ hop)
    obtain ⟨keys', hload', -, hkept'⟩ := keyring_run (U := U) hrun' hload hsound
    exact ⟨keys', hload', (hkept' hU hgenuine
      fun op hop => hhashed op (List.mem_append_right _ hop)).2⟩
  · rcases exec_acceptKeyOffers me offers hload hsound with
      ⟨e, hexec⟩ | ⟨updated, dir, d', hdir, hexec, hload', htaken⟩
    · rw [hexec]
      refine ⟨fun _ _ h => (Prod.mk.inj h).2.symm, fun n d' h => ?_⟩
      cases (Prod.mk.inj h).1
    · rw [hexec]
      refine ⟨fun e _ h => ?_, fun n d'' h => ?_⟩
      · cases (Prod.mk.inj h).1
      · obtain ⟨hn, rfl⟩ := Prod.mk.inj h
        obtain rfl := Except.ok.inj hn
        obtain ⟨added, hadded⟩ := htaken.kept
        refine ⟨⟨added, ?_, by rw [hadded, hload']⟩, ?_⟩
        · rw [← hadded, List.length_append, Nat.add_sub_cancel_left]
        · rw [acceptKeyOffers, Op.exec_query_bind, openDir_ok.2 hdir]
          simp only
          rw [Op.exec_query_bind, hload']
          simp only
          rw [Op.exec_except_bind, replay_again htaken.known]
          simp

end Keyring

/-! ### One key drawn, one offered -/

section Drawn

open Simulated

attribute [local instance] simulated

theorem noKeyring_keyless : NoKeyring general.fullName (keyless.nodes true) := by
  intro dir hdir
  have hthere : (keyless.nodes true).channels[general.fullName]? = some {} :=
    getElem?_put_self _ _ _
  obtain rfl := Option.some.inj (hdir.symm.trans hthere)
  rfl

theorem sound_drawn (n : UInt8) : Sound [.ofRaw (drawn n)] :=
  Sound.nil.concat (by simp [drawn]) (by simp)

/-- An offer that was made for another does not open. -/
theorem openKeyOffer_redirected (offer : KeyOffer) (raw : Bytes) :
    openKeyOffer general.fullName (identity 2)
      { offer with recipient := (identity 3).publicKey } ≠ .ok raw := by
  intro h
  simp only [openKeyOffer, bind_eq_ok, bailIf_eq_ok, not_or, not_not] at h
  obtain ⟨_, ⟨-, hrecipient⟩, -⟩ := h
  exact absurd hrecipient (by decide +kernel)

/-- One good offer of a key that is not there. -/
theorem exec_acceptKeyOffers_holding {offer : KeyOffer}
    (hopens : openKeyOffer general.fullName (identity 2) offer = .ok (drawn 2)) :
    ∃ d', (acceptKeyOffers general.fullName (identity 2) [offer]).exec
      (holding (.ofRaw (drawn 1))) = (.ok 1, d') := by
  have hdir : (holding (.ofRaw (drawn 1))).channels[general.fullName]? =
      some { channelKeys := .value [.ofRaw (drawn 1)] } := getElem?_put_self _ _ _
  have hnew : offer.keyId ∉ [ChannelKey.ofRaw (drawn 1)].map ChannelKey.id := by
    rw [← openKeyOffer_ok hopens]
    intro hmem
    have hid : hashHex (drawn 2) = hashHex (drawn 1) := List.mem_singleton.1 hmem
    have hsame := hashHex_inj_on injOn_drawn (Or.inr rfl) (Or.inl rfl) hid
    exact absurd hsame (by decide)
  have hreplay : Replay.replay (acceptKeyOffer general.fullName (identity 2))
      [.ofRaw (drawn 1)] [offer] = .ok [.ofRaw (drawn 1), .ofRaw (drawn 2)] :=
    Replay.replay_cons_ok.2 ⟨_, acceptKeyOffer_ok.2 ⟨_, hopens, by rw [if_neg hnew]; rfl⟩, rfl⟩
  rw [acceptKeyOffers, Op.exec_query_bind, openDir_ok.2 hdir]
  dsimp only
  rw [Op.exec_query_bind, loadKeys_holding]
  dsimp only
  rw [Op.exec_except_bind, hreplay]
  dsimp only
  rw [if_pos (by simp), saveKeys, Op.exec_bind_of_ok (exec_modifyDir hdir), Op.exec_pure]
  exact ⟨_, rfl⟩

/-- The law for a node that draws a key, and is offered another: first in
a list with an offer that was made for somebody else, then alone, and then
once more. It keeps its own key, also where it draws the same bytes
again. -/
theorem keyring_invariant_offered : ∃ good stray e keys added d₁ d₂ d₃ keys₃,
    Run (KeyringStep general.fullName) (keyless.nodes true)
      [.generate ⟨drawn 1, rfl⟩, .accept (identity 2) [good, stray]] d₁ ∧
    loadKeys general.fullName d₁ = .ok keys ∧ keys ≠ [] ∧ (keys.map ChannelKey.id).Nodup ∧
    (∀ key ∈ keys, ∃ raw, decodeKey key = .ok raw ∧ raw.length = 32 ∧ key.id = hashHex raw) ∧
    (acceptKeyOffers general.fullName (identity 2) [good, stray]).exec d₁ = (.error e, d₁) ∧
    (acceptKeyOffers general.fullName (identity 2) [good]).exec d₁ = (.ok 1, d₂) ∧
    loadKeys general.fullName d₂ = .ok (keys ++ added) ∧ added.length = 1 ∧
    (acceptKeyOffers general.fullName (identity 2) [good]).exec d₂ = (.ok 0, d₂) ∧
    Run (KeyringStep general.fullName) d₁
      [.accept (identity 2) [good], .generate ⟨drawn 1, rfl⟩] d₃ ∧
    loadKeys general.fullName d₃ = .ok keys₃ ∧ keys ⊆ keys₃ := by
  obtain ⟨good, -, hgood⟩ := exists_offer 1 2 2 general.fullName
  obtain ⟨stray, hstray⟩ : ∃ stray : KeyOffer, ∀ raw,
      openKeyOffer general.fullName (identity 2) stray ≠ .ok raw :=
    ⟨_, openKeyOffer_redirected good⟩
  have hdrawn : Run (KeyringStep general.fullName) (keyless.nodes true)
      [.generate ⟨drawn 1, rfl⟩] (holding (.ofRaw (drawn 1))) :=
    .snoc (.nil _) (congrArg Prod.snd (exec_generateChannelKey_keyless 1)).symm
  -- the list with the stray offer is refused, which leaves the node as it was
  obtain ⟨e, t, hrefused⟩ : ∃ e t, (acceptKeyOffers general.fullName (identity 2)
      [good, stray]).exec (holding (.ofRaw (drawn 1))) = (.error e, t) := by
    rcases exec_acceptKeyOffers (identity 2) [good, stray] (loadKeys_holding _) (sound_drawn 1) with
      ⟨e, hrefused⟩ | ⟨updated, dir, d', -, -, -, htaken⟩
    · exact ⟨e, _, hrefused⟩
    · obtain ⟨-, raw, hraw⟩ := htaken.known stray (by simp)
      exact absurd hraw (hstray raw)
  obtain rfl : t = holding (.ofRaw (drawn 1)) := by
    obtain ⟨_, -, -, -, -, haccept⟩ := keyring_invariant noKeyring_keyless hdrawn
    exact (haccept (identity 2) [good, stray]).1 e t hrefused
  have hrun : Run (KeyringStep general.fullName) (keyless.nodes true)
      [.generate ⟨drawn 1, rfl⟩, .accept (identity 2) [good, stray]] (holding (.ofRaw (drawn 1))) :=
    .snoc hdrawn (congrArg Prod.snd hrefused).symm
  obtain ⟨keys, hload, hnodup, hdecodes, hkept, haccept⟩ :=
    keyring_invariant noKeyring_keyless hrun
  have hne : keys ≠ [] := by
    cases hload.symm.trans (loadKeys_holding _)
    exact List.cons_ne_nil _ _
  -- the good offer alone is accepted
  obtain ⟨d₂, haccepted⟩ := exec_acceptKeyOffers_holding hgood
  obtain ⟨⟨added, hadded, hload₂⟩, hagain⟩ := (haccept (identity 2) [good]).2 1 d₂ haccepted
  -- and all the bytes are the two that were drawn
  have hopened : opened general.fullName (identity 2) [good, stray] ⊆ {drawn 1, drawn 2} := by
    rintro raw ⟨offer, hoffer, hraw⟩
    rcases List.mem_pair.1 hoffer with rfl | rfl
    · cases hgood.symm.trans hraw
      exact .inr rfl
    · exact absurd hraw (hstray raw)
  have hopened' : opened general.fullName (identity 2) [good] ⊆ {drawn 1, drawn 2} := by
    rintro raw ⟨offer, hoffer, hraw⟩
    exact hopened ⟨offer, List.mem_append_left [stray] hoffer, hraw⟩
  have hrun' : Run (KeyringStep general.fullName) (holding (.ofRaw (drawn 1)))
      [.accept (identity 2) [good], .generate ⟨drawn 1, rfl⟩] _ := .snoc (.snoc (.nil _) rfl) rfl
  obtain ⟨keys₃, hload₃, hsub⟩ := hkept _ _ {drawn 1, drawn 2} hrun' injOn_drawn (by
    simp only [List.cons_append, List.nil_append, List.forall_mem_cons, KeyringOp.hashed]
    exact ⟨by simp, hopened, hopened', by simp, by simp⟩)
  exact ⟨good, stray, e, keys, added, _, d₂, _, keys₃, hrun, hload, hne, hnodup, hdecodes,
    hrefused, haccepted, hload₂, hadded, hagain, hrun', hload₃, hsub⟩

end Drawn

end Embernet
