import Embernet.Keys.Keyring
import Embernet.Signing.Tampering
/-!
# Delivery — keys that arrive as they were sent

An offer binds its key to a channel, a sender and a recipient, and its
signature covers all of it. What `make_key_offers` makes of a keyring is
therefore taken in whole by the one recipient on the one channel, and
refused whole by anyone else and in any other form. What was encrypted
under a key stays readable wherever the key has come to.
-/

set_option autoImplicit false

namespace Embernet

open Primitives Exchange

section Delivery

variable [Primitives] {channel : String} {sender recipient : KeypairFile} {d d' : Datadir}
  {keys own : List ChannelKey} {offers offers' : List KeyOffer} {U : Set Bytes}

/-! ## One offer -/

/-- Two key pairs agree on a secret. -/
def KeypairFile.Shares (a b : KeypairFile) : Prop :=
  ∃ pkA pkB shared, hexDecode a.publicKey = some pkA ∧ pkA.length = 32 ∧
    hexDecode b.publicKey = some pkB ∧ pkB.length = 32 ∧
    sharedSecret a.secretKey pkB = some shared ∧ sharedSecret b.secretKey pkA = some shared

/-- So each finds the key the other wraps under. -/
theorem KeypairFile.Shares.offerWrapKey (h : sender.Shares recipient) (channel keyId : String) :
    ∃ wrapKey, offerWrapKey sender recipient.publicKey channel keyId = .ok wrapKey ∧
      offerWrapKey recipient sender.publicKey channel keyId = .ok wrapKey := by
  obtain ⟨pkA, pkB, shared, hpkA, hlenA, hpkB, hlenB, hA, hB⟩ := h
  have hsend : exchange sender recipient.publicKey = .ok shared := by
    simp only [exchange, bind_eq_ok, orBail_eq_ok, bailIf_eq_ok, not_not]
    exact ⟨pkB, hpkB, (), hlenB, hA⟩
  have hreceive : exchange recipient sender.publicKey = .ok shared := by
    simp only [exchange, bind_eq_ok, orBail_eq_ok, bailIf_eq_ok, not_not]
    exact ⟨pkA, hpkA, (), hlenA, hB⟩
  rw [Embernet.offerWrapKey, Embernet.offerWrapKey, hsend, hreceive]
  exact ⟨_, rfl, rfl⟩

/-- What a matching key pair signs is accepted under its public key. -/
theorem KeypairFile.Matches.verifyBytes (h : sender.Matches) (payload : Bytes) :
    ∃ sig, sender.signBytes payload = .ok sig ∧
      verifyBytes sender.publicKey sig payload = .ok () := by
  obtain ⟨pk, hpk, hpklen, hsigns⟩ := h
  obtain ⟨sig, hsig, hsiglen, hverify⟩ := hsigns payload
  refine ⟨hexEncode sig, ?_, ?_⟩
  · rw [KeypairFile.signBytes, hsig]
    rfl
  · simp only [Embernet.verifyBytes, bind_eq_ok, orBail_eq_ok, bailIf_eq_ok, not_not]
    exact ⟨pk, hpk, (), hpklen, sig, hexDecode_hexEncode sig, (), hsiglen, by rw [hverify]; simp⟩

/-- An offer that the sender made of a key, and the recipient opens. -/
structure Delivers (channel : String) (sender recipient : KeypairFile) (key : ChannelKey)
    (offer : KeyOffer) : Prop where
  made : ∃ nonce, makeKeyOffer channel sender recipient.publicKey nonce key = .ok offer
  opens : ∃ raw, key = .ofRaw raw ∧ openKeyOffer channel recipient offer = .ok raw

/-- **One key is delivered.** -/
theorem exists_delivers (hsender : sender.Matches) (hshares : sender.Shares recipient)
    {nonce raw : Bytes} (hnonce : nonce.length = 24) (hraw : raw.length = 32) :
    ∃ offer, makeKeyOffer channel sender recipient.publicKey nonce (.ofRaw raw) = .ok offer ∧
      Delivers channel sender recipient (.ofRaw raw) offer := by
  obtain ⟨wrapKey, hwrap, hunwrap⟩ := hshares.offerWrapKey channel (hashHex raw)
  let ciphertext := base64Encode
    (encrypt wrapKey nonce raw
      (offerAad channel (hashHex raw) sender.publicKey recipient.publicKey))
  obtain ⟨sig, hsig, hverify⟩ := hsender.verifyBytes
    (offerSigned channel (hashHex raw) sender.publicKey recipient.publicKey (base64Encode nonce)
      ciphertext)
  have hmade : makeKeyOffer channel sender recipient.publicKey nonce (.ofRaw raw) =
      .ok ⟨channel, hashHex raw, sender.publicKey, recipient.publicKey, base64Encode nonce,
        ciphertext, sig⟩ := by
    simp only [makeKeyOffer, bind_eq_ok, pure_eq_ok]
    exact ⟨raw, decodeKey_ofRaw hraw, wrapKey, hwrap, sig, hsig, rfl⟩
  refine ⟨_, hmade, ⟨nonce, hmade⟩, raw, rfl, ?_⟩
  simp only [openKeyOffer, bind_eq_ok, bailIf_eq_ok, orBail_eq_ok, pure_eq_ok]
  exact ⟨(), by simp, (), hverify, wrapKey, hunwrap, nonce, base64Decode_base64Encode _, (),
    not_not.2 hnonce, _, base64Decode_base64Encode _, raw, decrypt_encrypt _ _ _ _, (),
    not_not.2 hraw, (), by simp, rfl⟩

/-- What an offer is, its nonce and its signature apart. -/
theorem makeKeyOffer_ok {nonce : Bytes} {key : ChannelKey} {offer : KeyOffer}
    (h : makeKeyOffer channel sender recipient.publicKey nonce key = .ok offer) :
    offer.channel = channel ∧ offer.keyId = key.id ∧ offer.recipient = recipient.publicKey ∧
      sender.signBytes offer.signed = .ok offer.sig := by
  simp only [makeKeyOffer, bind_eq_ok, pure_eq_ok] at h
  obtain ⟨_, -, _, -, sig, hsig, rfl⟩ := h
  exact ⟨rfl, rfl, rfl, hsig⟩

/-! ## A list of offers -/

/-- **A keyring is offered whole.** -/
theorem exists_makeKeyOffers_delivers (hsender : sender.Matches)
    (hshares : sender.Shares recipient) {nonces : ℕ → Bytes} (hnonces : ∀ i, (nonces i).length = 24)
    (hlength : ∀ raw ∈ U, raw.length = 32) (hkeys : Genuine U keys)
    (hload : loadKeys channel d = .ok keys) :
    ∃ offers, makeKeyOffers channel sender recipient.publicKey nonces d = .ok offers ∧
      List.Forall₂ (Delivers channel sender recipient) keys offers := by
  suffices hmap : ∀ i, ∃ offers, (keys.zipIdx i).mapM (fun entry =>
      makeKeyOffer channel sender recipient.publicKey (nonces entry.2) entry.1) = .ok offers ∧
      List.Forall₂ (Delivers channel sender recipient) keys offers by
    obtain ⟨offers, hmade, hdelivers⟩ := hmap 0
    exact ⟨offers, Query.bind_ok.2 ⟨keys, hload, hmade⟩, hdelivers⟩
  clear hload
  induction keys with
  | nil => exact fun _ => ⟨[], rfl, .nil⟩
  | cons key keys ih =>
    intro i
    obtain ⟨raw, hraw, rfl⟩ := hkeys key List.mem_cons_self
    obtain ⟨offer, hmade, hone⟩ : ∃ offer, makeKeyOffer channel sender recipient.publicKey (nonces i)
        (.ofRaw raw) = .ok offer ∧ Delivers channel sender recipient (.ofRaw raw) offer :=
      exists_delivers hsender hshares (hnonces i) (hlength raw hraw)
    obtain ⟨offers, hoffers, hrest⟩ := ih (fun key hkey => hkeys key (List.mem_cons_of_mem _ hkey))
      (i + 1)
    exact ⟨offer :: offers, mapM_ok_iff.2 (.cons hmade (mapM_ok_iff.1 hoffers)), .cons hone hrest⟩

/-- Offers that the loop has taken were all opened. -/
theorem opens_of_replay {me : KeypairFile} {updated : List ChannelKey}
    (h : Replay.replay (acceptKeyOffer channel me) own offers = .ok updated) :
    ∀ offer ∈ offers, ∃ raw, openKeyOffer channel me offer = .ok raw := by
  induction offers generalizing own with
  | nil => exact fun _ h => nomatch h
  | cons offer offers ih =>
    obtain ⟨own', hstep, hrest⟩ := Replay.replay_cons_ok.1 h
    obtain ⟨raw, hraw, -⟩ := acceptKeyOffer_ok.1 hstep
    exact List.forall_mem_cons.2 ⟨⟨raw, hraw⟩, ih hrest⟩

/-- **A list of which one offer does not open is refused**, and leaves the
node as it was. -/
theorem acceptKeyOffers_refused {me : KeypairFile} {offer : KeyOffer} (hoffer : offer ∈ offers)
    (hcloses : ∀ raw, openKeyOffer channel me offer ≠ .ok raw) :
    ∃ e, (acceptKeyOffers channel me offers).exec d = (.error e, d) := by
  rw [acceptKeyOffers, Op.exec_query_bind]
  cases openDir channel d with
  | error e => exact ⟨e, rfl⟩
  | ok dir =>
    simp only
    rw [Op.exec_query_bind]
    cases loadKeys channel d with
    | error e => exact ⟨e, rfl⟩
    | ok own =>
      simp only
      rw [Op.exec_except_bind]
      cases hreplay : Replay.replay (acceptKeyOffer channel me) own offers with
      | error e => exact ⟨e, rfl⟩
      | ok updated =>
        obtain ⟨raw, hraw⟩ := opens_of_replay hreplay offer hoffer
        exact absurd hraw (hcloses raw)

/-- **A keyring arrives whole**, behind the keys that were there. -/
theorem acceptKeyOffers_delivers {dir : Dir} (hU : Set.InjOn blake3 U) (hkeys : Genuine U keys)
    (hdelivers : List.Forall₂ (Delivers channel sender recipient) keys offers)
    (hdir : d.channels[channel]? = some dir) (hload : loadKeys channel d = .ok own)
    (hown : Genuine U own) :
    ∃ n d', (acceptKeyOffers channel recipient offers).exec d = (.ok n, d') ∧
      loadKeys channel d' = .ok (learn own keys) := by
  have hopens : ∀ offer ∈ offers, ∃ raw ∈ U, openKeyOffer channel recipient offer = .ok raw := by
    intro offer hoffer
    obtain ⟨key, hkey, hone⟩ := exists_of_forall₂_right hdelivers hoffer
    obtain ⟨raw, rfl, hraw⟩ := hone.opens
    obtain ⟨raw', hraw', heq⟩ := hkeys _ hkey
    refine ⟨raw, ?_, hraw⟩
    have hsame : base64Encode raw = base64Encode raw' := congrArg ChannelKey.key heq
    have hdecode := congrArg base64Decode hsame
    rw [base64Decode_base64Encode, base64Decode_base64Encode, Option.some.injEq] at hdecode
    rwa [hdecode]
  have hids : offers.map KeyOffer.keyId = keys.map ChannelKey.id := by
    clear hopens hkeys
    induction hdelivers with
    | nil => rfl
    | cons hone _ ih =>
      obtain ⟨nonce, hmade⟩ := hone.made
      rw [List.map_cons, List.map_cons, ih, (makeKeyOffer_ok hmade).2.1]
  obtain ⟨n, d', hexec⟩ := exists_acceptKeyOffers (openDir_ok.2 hdir) hload
    fun offer hoffer => (hopens offer hoffer).imp fun _ h => h.2
  have hgenuine : Genuine U (own ++ keys) := fun key hkey =>
    (List.mem_append.1 hkey).elim (hown key) (hkeys key)
  have hopened : opened channel recipient offers ⊆ U := by
    rintro raw ⟨offer, hoffer, hraw⟩
    obtain ⟨raw', hraw', hsame⟩ := hopens offer hoffer
    cases hraw.symm.trans hsame
    exact hraw'
  rcases acceptKeyOffers_keys hU hgenuine (List.subset_append_left _ _)
    (List.subset_append_right _ _) hids hopened hload with ⟨e, herror⟩ | ⟨n', d'', hok, hload'⟩
  · cases hexec.symm.trans herror
  · exact ⟨n', d'', hok, hload'⟩

/-! ## Offers in another form -/

/-- The list as it was signed, with other contents under its signatures. -/
def Altered (offers offers' : List KeyOffer) : Prop :=
  List.Forall₂ (fun o o' => o'.sig = o.sig) offers offers' ∧ offers' ≠ offers

omit [Primitives] in
/-- **The signed bytes are the offer.** -/
theorem KeyOffer.eq_of_signed {o o' : KeyOffer} (h : o'.signed = o.signed) (hsig : o'.sig = o.sig) :
    o' = o := by
  have hcompact := List.append_cancel_left h
  have hpayload := Json.compact_injective hcompact
  obtain ⟨⟩ := o
  obtain ⟨⟩ := o'
  simp only [keyOfferPayload, Json.obj.injEq, List.cons.injEq, Prod.mk.injEq, true_and,
    Json.str.injEq, and_true] at hpayload hsig ⊢
  simp only [KeyOffer.mk.injEq]
  tauto

/-- An offer that opens under a signature of the sender's is the one it
signed. -/
theorem eq_of_openKeyOffer {o o' : KeyOffer} {me : KeypairFile} {raw : Bytes}
    (hsender : sender.Matches) (hbinds : SignatureBinds sender o.signed)
    (hsigned : sender.signBytes o.signed = .ok o.sig) (hsame : o'.sig = o.sig)
    (h : openKeyOffer channel me o' = .ok raw) : o' = o := by
  obtain ⟨pk, hpk, -, -⟩ := hsender
  simp only [KeypairFile.signBytes, bind_eq_ok, orBail_eq_ok, pure_eq_ok] at hsigned
  obtain ⟨sig, hsig, hhex⟩ := hsigned
  simp only [openKeyOffer, verifyBytes, bind_eq_ok, bailIf_eq_ok, orBail_eq_ok] at h
  obtain ⟨_, -, _, ⟨pk', -, _, -, sig', hsig', _, -, hverify⟩, -⟩ := h
  rw [hsame, ← hhex, hexDecode_hexEncode, Option.some.injEq] at hsig'
  subst hsig'
  have hverify : verify pk' sig o'.signed = true := by simpa using hverify
  exact KeyOffer.eq_of_signed (hbinds pk sig hpk hsig pk' _ hverify).2 hsame

/-- A list that is altered has an offer that does not open, for anyone. -/
theorem exists_closed_of_altered (hsender : sender.Matches)
    (hsigned : ∀ o ∈ offers, sender.signBytes o.signed = .ok o.sig)
    (hbinds : ∀ o ∈ offers, SignatureBinds sender o.signed) (h : Altered offers offers') :
    ∃ o' ∈ offers', ∀ me raw, openKeyOffer channel me o' ≠ .ok raw := by
  obtain ⟨hsame, hne⟩ := h
  by_contra hopen
  push Not at hopen
  refine hne ?_
  clear hne
  induction hsame with
  | nil => rfl
  | @cons o o' offers offers' hsig _ ih =>
    obtain ⟨hsigned, hsigneds⟩ := List.forall_mem_cons.1 hsigned
    obtain ⟨hbind, hbinds⟩ := List.forall_mem_cons.1 hbinds
    obtain ⟨⟨me, raw, hraw⟩, hopen⟩ := List.forall_mem_cons.1 hopen
    rw [eq_of_openKeyOffer hsender hbind hsigned hsig hraw, ih hsigneds hbinds hopen]

/-! ## Delivery -/

/-- **Keys arrive as they were sent.** What a sender offers of its keyring
is accepted by the recipient on the channel, whose keyring then has every
key of the sender's behind its own. With other contents under a signature
the list is refused by everyone, and so is a list with an offer in it by
any other recipient and on any other channel; the node stays as it was. -/
theorem key_delivery {chan : ChannelRef} {nonces : ℕ → Bytes} (hsender : sender.Matches)
    (hshares : sender.Shares recipient) (hnonces : ∀ i, (nonces i).length = 24)
    (hU : Set.InjOn blake3 U) (hlength : ∀ raw ∈ U, raw.length = 32) (hkeys : Genuine U keys)
    (hload : loadKeys chan.fullName d = .ok keys) :
    ∃ offers, makeKeyOffers chan.fullName sender recipient.publicKey nonces d = .ok offers ∧
      (∀ (node : Datadir) dir own, node.channels[chan.fullName]? = some dir →
        loadKeys chan.fullName node = .ok own → Genuine U own →
        ∃ n node' updated,
          (acceptKeyOffers chan.fullName recipient offers).exec node = (.ok n, node') ∧
          loadKeys chan.fullName node' = .ok updated ∧ own ⊆ updated ∧ keys ⊆ updated) ∧
      ((∀ offer ∈ offers, SignatureBinds sender offer.signed) →
        ∀ offers', Altered offers offers' → ∀ me channel' node,
          ∃ e, (acceptKeyOffers channel' me offers').exec node = (.error e, node)) ∧
      (offers ≠ [] → ∀ me channel' node,
        me.publicKey ≠ recipient.publicKey ∨ channel' ≠ chan.fullName →
          ∃ e, (acceptKeyOffers channel' me offers).exec node = (.error e, node)) := by
  obtain ⟨offers, hmade, hdelivers⟩ :=
    exists_makeKeyOffers_delivers hsender hshares hnonces hlength hkeys hload
  have hfields : ∀ offer ∈ offers, offer.channel = chan.fullName ∧
      offer.recipient = recipient.publicKey ∧ sender.signBytes offer.signed = .ok offer.sig := by
    intro offer hoffer
    obtain ⟨key, -, hone⟩ := exists_of_forall₂_right hdelivers hoffer
    obtain ⟨nonce, hmade⟩ := hone.made
    obtain ⟨hchannel, -, hrecipient, hsigned⟩ := makeKeyOffer_ok hmade
    exact ⟨hchannel, hrecipient, hsigned⟩
  refine ⟨offers, hmade, ?_, ?_, ?_⟩
  · intro node dir own hdir hown hgenuine
    obtain ⟨n, node', hexec, hload'⟩ :=
      acceptKeyOffers_delivers hU hkeys hdelivers hdir hown hgenuine
    exact ⟨n, node', _, hexec, hload', prefix_learn.subset, subset_learn⟩
  · intro hbinds offers' haltered me channel' node
    obtain ⟨o', ho', hcloses⟩ := exists_closed_of_altered hsender
      (fun offer hoffer => (hfields offer hoffer).2.2) hbinds haltered
    exact acceptKeyOffers_refused ho' (hcloses me)
  · intro hne me channel' node hother
    obtain ⟨offer, hoffer⟩ := List.exists_mem_of_ne_nil _ hne
    refine acceptKeyOffers_refused hoffer fun raw hraw => ?_
    -- the first check of the offer is of its channel and its recipient
    simp only [openKeyOffer, bind_eq_ok, bailIf_eq_ok, not_or, not_not] at hraw
    obtain ⟨_, ⟨hchannel, hrecipient⟩, -⟩ := hraw
    rcases hother with hother | hother
    · exact hother (hrecipient.symm.trans (hfields offer hoffer).2.1)
    · exact hother (hchannel.symm.trans (hfields offer hoffer).1)

/-! ## What was encrypted -/

/-- A message sealed under a key. -/
def sealedUnder (channel : String) (raw nonce : Bytes) (text : String) (message : Message) :
    Message :=
  { message with
    body := .encrypted (hashHex raw) (base64Encode nonce)
      (base64Encode (encrypt raw nonce (utf8 text) (messageAad channel (hashHex raw)))) }

/-- **A text is sealed under the last key.** -/
theorem exists_encryptMessage {message : Message} {text : String} (nonce : Bytes)
    (hload : loadKeys channel d = .ok keys) (hsound : Sound keys) (hne : keys ≠ [])
    (htext : message.body = .text text) :
    ∃ raw, raw.length = 32 ∧ keys.getLast hne = .ofRaw raw ∧
      encryptMessage channel nonce message d = .ok (sealedUnder channel raw nonce text message) := by
  obtain ⟨raw, hraw, hlast⟩ := hsound.drawn _ (List.getLast_mem hne)
  refine ⟨raw, hraw, hlast, ?_⟩
  have hkey : currentChannelKey channel d = .ok (.ofRaw raw) := by
    simp only [currentChannelKey, Query.bind_ok, Query.orBail_apply, orBail_eq_ok]
    exact ⟨keys, hload, by rw [List.getLast?_eq_some_getLast hne, hlast]⟩
  rw [encryptMessage, htext]
  simp only [Query.bind_ok, Query.lift_apply, Query.pure_apply]
  exact ⟨_, hkey, raw, decodeKey_ofRaw hraw, rfl⟩

/-- **It opens wherever the key is.** -/
theorem decryptEnvelope_sealedUnder {env : Envelope} {message : Message} {text : String}
    {raw nonce : Bytes} (hload : loadKeys channel d = .ok keys) (hsound : Sound keys)
    (hmem : .ofRaw raw ∈ keys) (hraw : raw.length = 32) (hnonce : nonce.length = 24)
    (hchannel : env.channel = channel) (htext : message.body = .text text)
    (hmsg : env.msg = sealedUnder channel raw nonce text message) :
    decryptEnvelope env d = .ok { env with msg := message } := by
  have hfind : keys.find? (·.id == hashHex raw) = some (.ofRaw raw) := by
    cases hfind : keys.find? (·.id == hashHex raw) with
    | none => simpa [ChannelKey.ofRaw] using List.find?_eq_none.1 hfind _ hmem
    | some key =>
      have hid : key.id = hashHex raw := by simpa using List.find?_some hfind
      rw [List.inj_on_of_nodup_map hsound.nodup (List.mem_of_find?_eq_some hfind) hmem hid]
  rw [decryptEnvelope, hmsg]
  simp only [sealedUnder, hchannel, Query.bind_ok, Query.orBail_apply, Query.bailIf_apply,
    Query.lift_apply, orBail_eq_ok, bailIf_eq_ok, not_not, Query.pure_apply]
  refine ⟨keys, hload, _, hfind, raw, decodeKey_ofRaw hraw, nonce, base64Decode_base64Encode _, (),
    hnonce, _, base64Decode_base64Encode _, utf8 text, decrypt_encrypt _ _ _ _, text,
    fromUtf8_utf8 text, ?_⟩
  rw [← htext]

/-- A key that was offered is in the keyring of whoever took the offers. -/
theorem mem_of_acceptKeyOffers {nonces : ℕ → Bytes} {recipient' : String} {me : KeypairFile}
    {raw : Bytes} {n : ℕ} {node node' : Datadir} (hU : Set.InjOn blake3 U)
    (hload : loadKeys channel d = .ok keys) (hkeys : Genuine U keys) (hmem : .ofRaw raw ∈ keys)
    (hmade : makeKeyOffers channel sender recipient' nonces d = .ok offers)
    (hown : loadKeys channel node = .ok own) (hsound : Sound own) (hgenuine : Genuine U own)
    (hopened : opened channel me offers ⊆ U)
    (haccepted : (acceptKeyOffers channel me offers).exec node = (.ok n, node')) :
    ∃ updated, loadKeys channel node' = .ok updated ∧ Sound updated ∧ Genuine U updated ∧
      .ofRaw raw ∈ updated := by
  obtain ⟨keys', hload', hids⟩ := makeKeyOffers_ok hmade
  cases hload.symm.trans hload'
  rcases exec_acceptKeyOffers me offers hown hsound with
    ⟨e, hexec⟩ | ⟨updated, dir, d', -, hexec, hupdated, htaken⟩
  · cases haccepted.symm.trans hexec
  · obtain rfl := (Prod.mk.inj (haccepted.symm.trans hexec)).2
    have hgenuine' : Genuine U updated := by
      intro key hkey
      rcases htaken.learned key hkey with hkey | ⟨raw', hraw', rfl⟩
      · exact hgenuine key hkey
      · exact ⟨raw', hopened hraw', rfl⟩
    refine ⟨updated, hupdated, htaken.sound, hgenuine', ?_⟩
    -- one of the offers has the key's id, and one key of a hash is that key
    obtain ⟨offer, hoffer, hid⟩ := List.mem_map.1 (hids ▸ List.mem_map_of_mem hmem :
      (ChannelKey.ofRaw raw).id ∈ offers.map KeyOffer.keyId)
    obtain ⟨key, hkey, hkeyId⟩ := List.mem_map.1 (htaken.known offer hoffer).1
    obtain ⟨raw₁, hraw₁, hraw⟩ := hkeys _ hmem
    obtain ⟨raw₂, hraw₂, rfl⟩ := hgenuine' key hkey
    have hsame : raw₂ = raw₁ := by
      refine hashHex_inj_on hU hraw₂ hraw₁ ?_
      rw [hid, hraw] at hkeyId
      exact hkeyId
    rw [hraw, ← hsame]
    exact hkey

/-- **Encrypted history stays readable.** On a node with a keyring a text
is sealed under its last key and signed; the envelope decrypts to it, and
to nothing else, after any rotations and any offers there, and after any on
a node that has taken the offers of this one since. -/
theorem history_readable {message : Message} {text : String} {nonce : Bytes}
    (hload : loadKeys channel d = .ok keys) (hsound : Sound keys) (hne : keys ≠ [])
    (hsender : sender.Matches) (htext : message.body = .text text) (hnonce : nonce.length = 24) :
    ∃ encrypted env, encryptMessage channel nonce message d = .ok encrypted ∧
      Envelope.sign sender channel encrypted = .ok env ∧
      (∃ raw, decodeKey (keys.getLast hne) = .ok raw ∧
        encrypted.body = .encrypted (keys.getLast hne).id (base64Encode nonce)
          (base64Encode (encrypt raw nonce (utf8 text)
            (messageAad channel (keys.getLast hne).id)))) ∧
      ∀ U, Set.InjOn blake3 U → Genuine U keys →
        ∀ ops d', Run (KeyringStep channel) d ops d' → (∀ op ∈ ops, op.hashed channel ⊆ U) →
          decryptEnvelope env d' = .ok { env with msg := message } ∧
          ∀ me recipient nonces offers taker node own n node',
            makeKeyOffers channel me recipient nonces d' = .ok offers →
            loadKeys channel node = .ok own → Sound own → Genuine U own →
            opened channel taker offers ⊆ U →
            (acceptKeyOffers channel taker offers).exec node = (.ok n, node') →
            ∀ ops' node'', Run (KeyringStep channel) node' ops' node'' →
              (∀ op ∈ ops', op.hashed channel ⊆ U) →
              decryptEnvelope env node'' = .ok { env with msg := message } := by
  obtain ⟨raw, hraw, hlast, hencrypted⟩ := exists_encryptMessage nonce hload hsound hne htext
  have hmem : .ofRaw raw ∈ keys := hlast ▸ List.getLast_mem hne
  obtain ⟨pk, -, -, hsigns⟩ := hsender
  obtain ⟨sig, hsig, -, -⟩ :=
    hsigns (signedPayload channel (sealedUnder channel raw nonce text message))
  refine ⟨_, _, hencrypted, Envelope.sign_ok.2 ⟨sig, hsig, rfl⟩, ⟨raw, ?_, ?_⟩, ?_⟩
  · rw [hlast]
    exact decodeKey_ofRaw hraw
  · rw [hlast]
    rfl
  intro U hU hkeys ops d' hrun hhashed
  obtain ⟨keys', hload', hsound', hkept⟩ := keyring_run (U := U) hrun hload hsound
  obtain ⟨hkeys', hsub⟩ := hkept hU hkeys hhashed
  refine ⟨decryptEnvelope_sealedUnder hload' hsound' (hsub hmem) hraw hnonce rfl htext rfl, ?_⟩
  intro me recipient nonces offers taker node own n node' hmade hown hownSound hownGenuine hopened
    haccepted ops' node'' hrun' hhashed'
  obtain ⟨updated, hupdated, hupdatedSound, hupdatedGenuine, hmem'⟩ :=
    mem_of_acceptKeyOffers hU hload' hkeys' (hsub hmem) hmade hown hownSound hownGenuine hopened
      haccepted
  obtain ⟨keys'', hload'', hsound'', hkept'⟩ := keyring_run (U := U) hrun' hupdated hupdatedSound
  exact decryptEnvelope_sealedUnder hload'' hsound''
    ((hkept' hU hupdatedGenuine hhashed').2 hmem') hraw hnonce rfl htext rfl

end Delivery

/-! ### One key, offered from a node to another -/

section Delivered

open Simulated

theorem length_nonce : nonce.length = 24 := by simp [nonce]

theorem sharedSecret_identity (m n : UInt8) :
    Simulated.sharedSecret (identity m).secretKey (List.replicate 32 n) = some (sharedBy m n) := by
  rw [identity, Simulated.sharedSecret, hexDecode_hexEncode]
  simp [sharedBy]

/-- The signed bytes of the offer of the first key. -/
noncomputable def offeredPayload : Bytes :=
  letI := simulated
  let keyId := hashHex (drawn 1)
  let wrapKey := blake3 (utf8 "embernet-key-wrap-v1\n" ++ sharedBy 1 2 ++ utf8 general.fullName ++
    [0x0a] ++ utf8 keyId)
  offerSigned general.fullName keyId (identity 1).publicKey (identity 2).publicKey
    (base64Encode nonce) (base64Encode (Primitives.encrypt wrapKey nonce (drawn 1)
      (offerAad general.fullName keyId (identity 1).publicKey (identity 2).publicKey)))

/-- Signatures under which the offer's is its sender's alone. -/
noncomputable def offerSignature (publicKey payload : Bytes) : Bytes :=
  open Classical in
  if publicKey = List.replicate 32 1 ∧ payload = offeredPayload then List.replicate 64 1
  else List.replicate 64 0

/-- The simulated libraries with these signatures. -/
@[reducible] noncomputable def offering : Primitives where
  __ := simulated
  verify publicKey sig payload := sig == offerSignature publicKey payload
  sign secretKey payload :=
    (hexDecode secretKey).map fun pair => offerSignature (pair.drop 32) payload

attribute [local instance] offering

theorem matches_offering : (identity 1).Matches := by
  refine ⟨List.replicate 32 1, hexDecode_hexEncode _, by simp, fun payload => ?_⟩
  refine ⟨offerSignature (List.replicate 32 1) payload, ?_, ?_, beq_self_eq_true _⟩
  · change (hexDecode (hexEncode _)).map _ = _
    rw [hexDecode_hexEncode]
    simp
  · unfold offerSignature
    split <;> simp

theorem shares_offering : (identity 1).Shares (identity 2) :=
  ⟨List.replicate 32 1, List.replicate 32 2, sharedBy 1 2, hexDecode_hexEncode _, by simp,
    hexDecode_hexEncode _, by simp, sharedSecret_identity 1 2, sharedSecret_identity 2 1⟩

theorem signatureBinds_offering : SignatureBinds (identity 1) offeredPayload := by
  intro pk sig hpk hsig pk' payload' hverify
  have hpk : pk = List.replicate 32 1 := by
    change hexDecode (hexEncode _) = _ at hpk
    rw [hexDecode_hexEncode, Option.some.injEq] at hpk
    exact hpk.symm
  have hsig : sig = List.replicate 64 1 := by
    change (hexDecode (hexEncode _)).map _ = _ at hsig
    rw [hexDecode_hexEncode] at hsig
    simpa [offerSignature] using hsig.symm
  have hverify : sig = offerSignature pk' payload' := beq_iff_eq.1 hverify
  rw [hsig, offerSignature] at hverify
  subst hpk
  split at hverify
  · assumption
  · exact absurd hverify (by decide)

/-- One key is one offer. -/
theorem length_offering {offers : List KeyOffer}
    (h : makeKeyOffers general.fullName (identity 1) (identity 2).publicKey (fun _ => nonce)
      (holding (.ofRaw (drawn 1))) = .ok offers) : offers.length = 1 := by
  rw [makeKeyOffers, Query.bind_ok] at h
  obtain ⟨keys, hkeys, h⟩ := h
  cases (loadKeys_holding _).symm.trans hkeys
  exact (mapM_ok_iff.1 h).length_eq.symm

/-- What is made of the first key is the offer that was signed. -/
theorem signed_offering {offers : List KeyOffer}
    (h : makeKeyOffers general.fullName (identity 1) (identity 2).publicKey (fun _ => nonce)
      (holding (.ofRaw (drawn 1))) = .ok offers) :
    ∀ offer ∈ offers, offer.signed = offeredPayload := by
  have hexchange : exchange (identity 1) (identity 2).publicKey = .ok (sharedBy 1 2) := by
    simp only [exchange, identity, bind_eq_ok, hexDecode_hexEncode, orBail_eq_ok, bailIf_eq_ok]
    exact ⟨_, rfl, (), by simp, sharedSecret_identity 1 2⟩
  rw [makeKeyOffers, Query.bind_ok] at h
  obtain ⟨keys, hkeys, h⟩ := h
  cases (loadKeys_holding _).symm.trans hkeys
  intro offer hoffer
  obtain ⟨⟨key, i⟩, hkey, hmade⟩ := exists_of_forall₂_right (mapM_ok_iff.1 h) hoffer
  obtain rfl : key = .ofRaw (drawn 1) := by simpa using (List.mem_zipIdx hkey).2.2
  simp only [makeKeyOffer, bind_eq_ok, pure_eq_ok, decodeKey_ofRaw (show (drawn 1).length = 32 by
    simp [drawn]), offerWrapKey, hexchange, Except.ok.injEq] at hmade
  obtain ⟨_, rfl, _, ⟨_, rfl, rfl⟩, _, -, rfl⟩ := hmade
  rfl

/-- The law for one key: it arrives at a node that has none, no other form of
its offer does, and its offer at no other recipient and on no other
channel. -/
theorem key_delivery_one :
    ∃ offers, makeKeyOffers general.fullName (identity 1) (identity 2).publicKey (fun _ => nonce)
        (holding (.ofRaw (drawn 1))) = .ok offers ∧
      (∃ n node updated, (acceptKeyOffers general.fullName (identity 2) offers).exec
          (keyless.nodes false) = (.ok n, node) ∧
        loadKeys general.fullName node = .ok updated ∧ [.ofRaw (drawn 1)] ⊆ updated) ∧
      (∀ offers', Altered offers offers' → ∀ me channel node,
        ∃ e, (acceptKeyOffers channel me offers').exec node = (.error e, node)) ∧
      ∀ me channel node, me.publicKey ≠ (identity 2).publicKey ∨ channel ≠ general.fullName →
        ∃ e, (acceptKeyOffers channel me offers).exec node = (.error e, node) := by
  have hU : Set.InjOn blake3 ({drawn 1} : Set Bytes) := by
    rintro _ rfl _ rfl _
    rfl
  have hkeys : Genuine {drawn 1} [.ofRaw (drawn 1)] := fun key hkey =>
    ⟨_, rfl, List.mem_singleton.1 hkey⟩
  obtain ⟨offers, hmade, harrive, haltered, hredirected⟩ :=
    key_delivery matches_offering shares_offering (fun _ => length_nonce) hU
      (by rintro _ rfl; simp [drawn]) hkeys (loadKeys_holding _)
  have hne : offers ≠ [] := List.ne_nil_of_length_pos (by rw [length_offering hmade]; decide)
  refine ⟨offers, hmade, ?_, haltered fun offer hoffer => ?_, hredirected hne⟩
  · obtain ⟨n, node, updated, hexec, hupdated, -, hsub⟩ :=
      harrive (keyless.nodes false) {} [] (getElem?_put_self _ _ _)
        (by simp [keyless, loadKeys]) (by rintro _ ⟨⟩)
    exact ⟨n, node, updated, hexec, hupdated, hsub⟩
  · rw [signed_offering hmade offer hoffer]
    exact signatureBinds_offering

end Delivered

/-! ### A node with no key, and one that rotates -/

section Readable

open Simulated

attribute [local instance] simulated

theorem matches_identity (n : UInt8) : (identity n).Matches := by
  refine ⟨List.replicate 32 n, hexDecode_hexEncode _, by simp, fun payload => ?_⟩
  refine ⟨signature (List.replicate 32 n) payload, ?_, by simp [signature, length_hash],
    beq_self_eq_true _⟩
  change Simulated.sign (hexEncode _) payload = _
  rw [Simulated.sign, hexDecode_hexEncode]
  simp

theorem shares_identity (m n : UInt8) : (identity m).Shares (identity n) := by
  refine ⟨List.replicate 32 m, List.replicate 32 n, sharedBy m n, hexDecode_hexEncode _, by simp,
    hexDecode_hexEncode _, by simp, sharedSecret_identity m n, ?_⟩
  rw [sharedBy, UInt8.add_comm]
  exact sharedSecret_identity n m

/-- Another key under the first key's id. -/
noncomputable def mislabelled : ChannelKey :=
  { ChannelKey.ofRaw (drawn 2) with id := hashHex (drawn 1) }

/-- Where its id is taken, a key that is offered does not arrive. -/
theorem exec_acceptKeyOffers_mislabelled {offer : KeyOffer}
    (h : openKeyOffer general.fullName (identity 2) offer = .ok (drawn 1)) :
    (acceptKeyOffers general.fullName (identity 2) [offer]).exec (holding mislabelled) =
      (.ok 0, holding mislabelled) := by
  have hopen : openDir general.fullName (holding mislabelled) =
      .ok { channelKeys := .value [mislabelled] } := openDir_ok.2 (getElem?_put_self _ _ _)
  have hreplay : Replay.replay (acceptKeyOffer general.fullName (identity 2)) [mislabelled] [offer] =
      .ok [mislabelled] := by
    refine Replay.replay_cons_ok.2 ⟨_, acceptKeyOffer_ok.2 ⟨_, h, rfl⟩, ?_⟩
    rw [if_pos]
    · rfl
    · rw [← openKeyOffer_ok h]
      exact List.mem_singleton_self _
  rw [acceptKeyOffers, Op.exec_query_bind, hopen]
  simp only
  rw [Op.exec_query_bind, loadKeys_holding]
  simp only
  rw [Op.exec_except_bind, hreplay]
  rfl

/-- **No offers are refused by nobody, and a taken id keeps its key**: a
keyring with no key makes an empty list, which an identity it was not made
for accepts; and a key that arrives where its id is another's is not
taken, though the call succeeds. -/
theorem empty_offers_accepted :
    ((identity 1).Matches ∧ (identity 1).Shares (identity 2)) ∧
    (makeKeyOffers general.fullName (identity 1) (identity 2).publicKey (fun _ => nonce)
        (keyless.nodes true) = .ok [] ∧
      (identity 3).publicKey ≠ (identity 2).publicKey ∧
      (acceptKeyOffers general.fullName (identity 3) []).exec (keyless.nodes false) =
        (.ok 0, keyless.nodes false)) ∧
    ∃ offers, makeKeyOffers general.fullName (identity 1) (identity 2).publicKey (fun _ => nonce)
        (holding (.ofRaw (drawn 1))) = .ok offers ∧
      (acceptKeyOffers general.fullName (identity 2) offers).exec (holding mislabelled) =
        (.ok 0, holding mislabelled) ∧
      loadKeys general.fullName (holding mislabelled) = .ok [mislabelled] ∧
      .ofRaw (drawn 1) ∉ [mislabelled] := by
  refine ⟨⟨matches_identity 1, shares_identity 1 2⟩, ⟨?_, ?_, ?_⟩, ?_⟩
  · exact Query.bind_ok.2 ⟨[], start_keyless.1 true, rfl⟩
  · change hexEncode _ ≠ hexEncode _
    rw [Ne, hexEncode_inj]
    decide
  · have hopen : openDir general.fullName (keyless.nodes false) = .ok {} :=
      openDir_ok.2 (getElem?_put_self _ _ _)
    rw [acceptKeyOffers, Op.exec_query_bind, hopen]
    simp only
    rw [Op.exec_query_bind, start_keyless.1 false]
    rfl
  · obtain ⟨offer, hmade, hopens⟩ := exists_offer 1 2 1 general.fullName
    refine ⟨[offer], Query.bind_ok.2 ⟨_, loadKeys_holding _, ?_⟩,
      exec_acceptKeyOffers_mislabelled hopens, loadKeys_holding _, ?_⟩
    · exact mapM_ok_iff.2 (.cons hmade .nil)
    · rw [List.mem_singleton]
      intro h
      have hkey : hexEncode (drawn 1) = hexEncode (drawn 2) := congrArg ChannelKey.key h
      rw [hexEncode_inj] at hkey
      exact absurd hkey (by decide)

/-- The law for a node that seals the notice and rotates, and one that
takes its offers. -/
theorem history_readable_rotated : ∃ encrypted env d node offers,
    encryptMessage general.fullName nonce notice (holding (.ofRaw (drawn 1))) = .ok encrypted ∧
      (∃ ciphertext, encrypted.body =
        .encrypted (hashHex (drawn 1)) (base64Encode nonce) ciphertext) ∧
      Envelope.sign (identity 1) general.fullName encrypted = .ok env ∧
      Run (KeyringStep general.fullName) (holding (.ofRaw (drawn 1)))
        [.generate ⟨drawn 2, rfl⟩] d ∧
      decryptEnvelope env d = .ok { env with msg := notice } ∧
      makeKeyOffers general.fullName (identity 1) (identity 2).publicKey (fun _ => nonce) d =
        .ok offers ∧
      (∃ n, (acceptKeyOffers general.fullName (identity 2) offers).exec (keyless.nodes false) =
        (.ok n, node)) ∧
      decryptEnvelope env node = .ok { env with msg := notice } := by
  have hload := loadKeys_holding (.ofRaw (drawn 1))
  have hone : Sound [.ofRaw (drawn 1)] :=
    ⟨by simp, fun key hkey => ⟨drawn 1, by simp [drawn], List.mem_singleton.1 hkey⟩⟩
  have hgenuine : Genuine {drawn 1, drawn 2} [.ofRaw (drawn 1)] := fun key hkey =>
    ⟨_, .inl rfl, List.mem_singleton.1 hkey⟩
  obtain ⟨d, hrun⟩ : ∃ d, Run (KeyringStep general.fullName) (holding (.ofRaw (drawn 1)))
      [.generate ⟨drawn 2, rfl⟩] d := ⟨_, .snoc (.nil _) rfl⟩
  have hhashed : ∀ op ∈ [KeyringOp.generate ⟨drawn 2, rfl⟩],
      op.hashed general.fullName ⊆ {drawn 1, drawn 2} := by simp [KeyringOp.hashed]
  obtain ⟨encrypted, env, hencrypted, hsign, ⟨raw, -, hbody⟩, hreadable⟩ :=
    history_readable hload hone (by simp) (matches_identity 1)
      (rfl : notice.body = .text "notice") length_nonce
  obtain ⟨hhere, hthere⟩ := hreadable _ injOn_drawn hgenuine _ _ hrun hhashed
  -- the node offers both keys, and the other takes them
  obtain ⟨keys, hkeys, -, hkept⟩ := keyring_run (U := {drawn 1, drawn 2}) hrun hload hone
  have hdrawn : keys ⊆ [.ofRaw (drawn 1), .ofRaw (drawn 2)] := by
    intro key hkey
    obtain ⟨raw, rfl | rfl, rfl⟩ := (hkept injOn_drawn hgenuine hhashed).1 key hkey <;> simp
  obtain ⟨offers, hmade, hopens⟩ := exists_makeKeyOffers 1 2 hkeys hdrawn
  obtain ⟨n, node, haccepted⟩ := exists_acceptKeyOffers
    (openDir_ok.2 (getElem?_put_self _ _ _) : openDir general.fullName (keyless.nodes false) = .ok {})
    (start_keyless.1 false) fun offer hoffer => (hopens offer hoffer).imp fun _ h => h.2
  refine ⟨encrypted, env, d, node, offers, hencrypted, ⟨_, hbody⟩, hsign, hrun, hhere, hmade,
    ⟨n, haccepted⟩, ?_⟩
  refine hthere _ _ _ _ (identity 2) _ [] n node hmade (start_keyless.1 false) .nil
    (by rintro _ ⟨⟩) ?_ haccepted [] node (.nil _) (by rintro _ ⟨⟩)
  rintro raw ⟨offer, hoffer, hraw⟩
  obtain ⟨raw', hmem, hraw'⟩ := hopens offer hoffer
  cases hraw.symm.trans hraw'
  exact hmem

end Readable

end Embernet
