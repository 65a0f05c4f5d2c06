import Embernet.Model.Primitives
/-!
# Proto — identities, signatures and envelopes

`proto.rs`. An envelope's id is the hash of its message alone; its
signature covers the channel and the message, and neither covers
`from_alias`.
-/

set_option autoImplicit false

namespace Embernet

open Primitives

variable [Primitives]

/-- `util::valid_channel`. -/
def validChannel (name : String) : Bool :=
  let chars := name.toList
  chars.all (fun c => decide ('a' ≤ c ∧ c ≤ 'z') || c.isDigit || c == '/' || c == '-')
    && !chars.isEmpty
    && chars.head? != some '/'
    && chars.getLast? != some '/'
    && !(chars.zip chars.tail).contains ('/', '/')

/-- A channel name that has been checked. -/
structure ChannelRef where
  fullName : String
  valid : validChannel fullName = true
  deriving DecidableEq

/-- `ChannelRef::parse`. -/
def ChannelRef.parse (name : String) : Except Error ChannelRef :=
  if h : validChannel name = true then .ok ⟨name, h⟩
  else bail "invalid channel name"

omit [Primitives] in
theorem ChannelRef.parse_fullName (chan : ChannelRef) : ChannelRef.parse chan.fullName = .ok chan :=
  dif_pos chan.valid

omit [Primitives] in
theorem ChannelRef.fullName_of_parse {name : String} {chan : ChannelRef}
    (h : ChannelRef.parse name = .ok chan) : chan.fullName = name := by
  rw [parse] at h
  split at h <;> cases h
  rfl

/-- `verify_bytes`. -/
def verifyBytes (publicKey signature : String) (payload : Bytes) : Except Error Unit := do
  let pkBytes ← orBail ["hex::decode"] (hexDecode publicKey)
  bailIf (pkBytes.length ≠ 32) ["bad public key"]
  let sigBytes ← orBail ["hex::decode"] (hexDecode signature)
  bailIf (sigBytes.length ≠ 64) ["bad signature"]
  bailIf (verify pkBytes sigBytes payload = false) ["signature verification failed"]

/-- `KeypairFile::sign_bytes`. -/
def KeypairFile.signBytes (kf : KeypairFile) (payload : Bytes) : Except Error String := do
  let sig ← orBail ["bad key bytes"] (sign kf.secretKey payload)
  pure (hexEncode sig)

/-- The id of a message: the hash of its JSON. -/
def Message.id (msg : Message) : String := hashHex msg.toJson.compact

/-- What an envelope's signature covers: the channel, a line feed, and
the message. -/
def signedPayload (channel : String) (msg : Message) : Bytes :=
  utf8 channel ++ 0x0a :: msg.toJson.compact

/-- `Envelope::sign`. -/
def Envelope.sign (kf : KeypairFile) (channel : String) (msg : Message) :
    Except Error Envelope := do
  let sig ← kf.signBytes (signedPayload channel msg)
  pure { id := msg.id, channel, sender := kf.publicKey, fromAlias := kf.keyAlias, ts := msg.ts,
         sig, msg }

/-- `Envelope::verify`. -/
def Envelope.verify (env : Envelope) : Except Error Unit := do
  bailIf (env.ts ≠ env.msg.ts)
    [s!"envelope timestamp {env.ts} does not match signed message timestamp {env.msg.ts}"]
  let pkBytes ← orBail ["hex::decode"] (hexDecode env.sender)
  bailIf (pkBytes.length ≠ 32) ["bad pk"]
  let sigBytes ← orBail ["hex::decode"] (hexDecode env.sig)
  bailIf (sigBytes.length ≠ 64) ["bad sig"]
  bailIf (Primitives.verify pkBytes sigBytes (signedPayload env.channel env.msg) = false)
    ["signature verification failed"]
  bailIf (env.id ≠ env.msg.id)
    [s!"id mismatch: claimed {env.id} but computed {env.msg.id}"]

/-- What a verified envelope is: its clock and its id are the message's,
and its author signed the message for its channel. -/
theorem Envelope.verify_ok_iff {env : Envelope} :
    env.verify = .ok () ↔ env.ts = env.msg.ts ∧ env.id = env.msg.id ∧
      verifyBytes env.sender env.sig (signedPayload env.channel env.msg) = .ok () := by
  simp only [Envelope.verify, verifyBytes, bind_eq_ok, bailIf_eq_ok, orBail_eq_ok]
  constructor
  · rintro ⟨_, hts, pk, hpk, _, hpklen, sg, hsg, _, hsglen, _, hverify, hid⟩
    exact ⟨not_not.1 hts, not_not.1 hid, pk, hpk, (), hpklen, sg, hsg, (), hsglen, hverify⟩
  · rintro ⟨hts, hid, pk, hpk, _, hpklen, sg, hsg, _, hsglen, hverify⟩
    exact ⟨(), not_not.2 hts, pk, hpk, (), hpklen, sg, hsg, (), hsglen, (), hverify,
      not_not.2 hid⟩

/-- Its id is that of 32 bytes. -/
theorem Envelope.id_of_verify {env : Envelope} (h : env.verify = .ok ()) :
    env.id = hashHex env.msg.toJson.compact := (Envelope.verify_ok_iff.1 h).2.1

end Embernet
