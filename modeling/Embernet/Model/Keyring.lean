import Embernet.Model.Datadir
/-!
# Keyring — the keys of a private channel

`crypto.rs`. A channel's keys are a list; a new key is put last, whether
generated here or accepted from a member, and the key messages are
written under is the last. Random bytes are given.
-/

set_option autoImplicit false

namespace Embernet

open Primitives

variable [Primitives]

/-- `load_keys`. -/
def loadKeys (channel : String) : ReadM (List ChannelKey) := fun d =>
  match d.channels[channel]? with
  | none => pure []
  | some dir =>
    match dir.channelKeys with
    | .absent => pure []
    | .malformed => bail "invalid channel keyring channel-keys.json"
    | .value keys => pure keys

/-- `save_keys`. -/
def saveKeys (channel : String) (keys : List ChannelKey) : StoreM Unit :=
  modifyDir channel fun dir => { dir with channelKeys := .value keys }

/-- The key of 32 random bytes. -/
def ChannelKey.ofRaw (raw : Bytes) : ChannelKey where
  id := hashHex raw
  key := base64Encode raw

/-- `generate_channel_key`, from the bytes the random source gives. -/
def generateChannelKey (channel : String) (raw : Bytes) : StoreM ChannelKey := do
  let _ ← openDir channel
  let key := ChannelKey.ofRaw raw
  let keys ← loadKeys channel
  -- the new key is the last, and so the current one
  saveKeys channel (keys.filter (·.id != key.id) ++ [key])
  pure key

/-- `current_channel_key`. -/
def currentChannelKey (channel : String) : ReadM ChannelKey := do
  let keys ← loadKeys channel
  orBail [s!"no encryption key for private channel {channel}; synchronize with a member first"]
    keys.getLast?

/-- `decode_key`. -/
def decodeKey (key : ChannelKey) : Except Error Bytes := do
  let raw ← orBail ["base64"] (base64Decode key.key)
  bailIf (raw.length ≠ 32) ["channel key must contain 32 bytes"]
  pure raw

/-- `message_aad`. -/
def messageAad (channel keyId : String) : Bytes :=
  utf8 "embernet-message-v1\n" ++ utf8 channel ++ [0x0a] ++ utf8 keyId

/-- `encrypt_message`. -/
def encryptMessage (channel : String) (nonce : Bytes) (message : Message) : ReadM Message := do
  let key ← currentChannelKey channel
  let rawKey ← decodeKey key
  match message.body with
  | .text text =>
    let ciphertext := encrypt rawKey nonce (utf8 text) (messageAad channel key.id)
    pure { message with
      body := .encrypted key.id (base64Encode nonce) (base64Encode ciphertext) }
  | .encrypted .. => bail "message is already encrypted"

/-- `decrypt_envelope`. -/
def decryptEnvelope (envelope : Envelope) : ReadM Envelope :=
  match envelope.msg.body with
  | .text _ => pure envelope
  | .encrypted keyId nonce ciphertext => do
    let keys ← loadKeys envelope.channel
    -- whichever of the keys it was, the old ones too
    let key ← orBail [s!"missing decryption key {keyId}"] (keys.find? (·.id == keyId))
    let rawKey ← decodeKey key
    let nonce ← orBail ["base64"] (base64Decode nonce)
    bailIf (nonce.length ≠ 24) ["encrypted message nonce must contain 24 bytes"]
    let ciphertext ← orBail ["base64"] (base64Decode ciphertext)
    let plaintext ← orBail [s!"decrypt private-channel message {envelope.id}"]
      (decrypt rawKey nonce ciphertext (messageAad envelope.channel keyId))
    let text ← orBail ["decrypted message is not UTF-8"] (fromUtf8 plaintext)
    pure { envelope with msg := { envelope.msg with body := .text text } }

/-- `x25519_public` and the key exchange; the error is the library's. -/
def exchange (identity : KeypairFile) (other : String) : Except Error Bytes := do
  let bytes ← orBail ["hex::decode"] (hexDecode other)
  bailIf (bytes.length ≠ 32) ["bad Ed25519 public key"]
  orBail ["refusing non-contributory X25519 key exchange"]
    (sharedSecret identity.secretKey bytes)

/-- `offer_wrap_key`. -/
def offerWrapKey (identity : KeypairFile) (other channel keyId : String) :
    Except Error Bytes := do
  let shared ← exchange identity other
  pure (blake3 (utf8 "embernet-key-wrap-v1\n" ++ shared ++ utf8 channel ++ [0x0a] ++ utf8 keyId))

/-- `offer_aad`. -/
def offerAad (channel keyId sender recipient : String) : Bytes :=
  utf8 "embernet-key-offer-v1\n" ++ utf8 channel ++ [0x0a] ++ utf8 keyId ++ [0x0a] ++
    utf8 sender ++ [0x0a] ++ utf8 recipient

/-- What the signature of an offer covers. -/
def offerSigned (channel keyId sender recipient nonce ciphertext : String) : Bytes :=
  utf8 "embernet-key-offer-signature-v1\n" ++
    (keyOfferPayload channel keyId sender recipient nonce ciphertext).compact

/-- Its own, made of the fields it came with. -/
def KeyOffer.signed (o : KeyOffer) : Bytes :=
  offerSigned o.channel o.keyId o.sender o.recipient o.nonce o.ciphertext

/-- One turn of the closure of `make_key_offers`. -/
def makeKeyOffer (channel : String) (sender : KeypairFile) (recipient : String) (nonce : Bytes)
    (key : ChannelKey) : Except Error KeyOffer := do
  let raw ← decodeKey key
  let wrapKey ← offerWrapKey sender recipient channel key.id
  let ciphertext := base64Encode
    (encrypt wrapKey nonce raw (offerAad channel key.id sender.publicKey recipient))
  let nonce := base64Encode nonce
  let sig ← sender.signBytes
    (offerSigned channel key.id sender.publicKey recipient nonce ciphertext)
  pure { channel, keyId := key.id, sender := sender.publicKey, recipient, nonce, ciphertext, sig }

/-- `make_key_offers`: one offer for each key, the `i`-th under the `i`-th
nonce the random source gives. -/
def makeKeyOffers (channel : String) (sender : KeypairFile) (recipient : String)
    (nonces : ℕ → Bytes) : ReadM (List KeyOffer) := do
  let keys ← loadKeys channel
  (keys.zipIdx.mapM fun (key, i) => makeKeyOffer channel sender recipient (nonces i) key :
    Except Error _)

/-- The checks `accept_key_offers` makes of one offer, and the key it
holds. -/
def openKeyOffer (channel : String) (recipient : KeypairFile) (offer : KeyOffer) :
    Except Error Bytes := do
  bailIf (offer.channel ≠ channel ∨ offer.recipient ≠ recipient.publicKey)
    ["channel key offer has the wrong channel or recipient"]
  verifyBytes offer.sender offer.sig offer.signed
  let wrapKey ← offerWrapKey recipient offer.sender channel offer.keyId
  let nonce ← orBail ["base64"] (base64Decode offer.nonce)
  bailIf (nonce.length ≠ 24) ["key offer nonce must contain 24 bytes"]
  let ciphertext ← orBail ["base64"] (base64Decode offer.ciphertext)
  let raw ← orBail ["unwrap channel key"]
    (decrypt wrapKey nonce ciphertext
      (offerAad channel offer.keyId offer.sender offer.recipient))
  bailIf (raw.length ≠ 32) ["unwrapped channel key must contain 32 bytes"]
  -- so two keys under one id would be two preimages of one hash
  bailIf (hashHex raw ≠ offer.keyId) ["channel key offer id does not match its key"]
  pure raw

/-- One turn of the loop of `accept_key_offers`. -/
def acceptKeyOffer (channel : String) (recipient : KeypairFile) (keys : List ChannelKey)
    (offer : KeyOffer) : Except Error (List ChannelKey) := do
  let raw ← openKeyOffer channel recipient offer
  -- a key that is there keeps its place; another becomes the current one
  if keys.any (·.id == offer.keyId) then pure keys
  else pure (keys ++ [{ id := offer.keyId, key := base64Encode raw }])

/-- `accept_key_offers`. The number of keys accepted is the number of keys
added. -/
def acceptKeyOffers (channel : String) (recipient : KeypairFile) (offers : List KeyOffer) :
    StoreM ℕ := do
  let _ ← openDir channel
  let keys ← loadKeys channel
  -- one bad offer fails the list, and none of it is saved
  let updated ← (Replay.replay (acceptKeyOffer channel recipient) keys offers : Except Error _)
  let accepted := updated.length - keys.length
  if accepted > 0 then saveKeys channel updated
  pure accepted

end Embernet
