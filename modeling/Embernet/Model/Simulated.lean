import Embernet.Model.Moderation
import Mathlib.Algebra.Group.Nat.Defs
/-!
# Simulated primitives — libraries one can evaluate

An instance of `Primitives` that behaves as the libraries do: hashes have
32 bytes, a signature verifies under the key pair that made it and under
no other, a sealed text opens under its key and its associated data, and
every record reads back. It is not secure, and nothing here says it is;
it lets a theorem about the program be applied to a concrete history.
-/

set_option autoImplicit false

namespace Embernet

namespace Simulated

/-- A polynomial of the bytes, in 256 bits. -/
def hash (b : Bytes) : Bytes :=
  let n := b.foldl (fun n x => (n * 1099511628211 + x.toNat + 1) % 2 ^ 256) 14695981039346656037
  (List.range 32).map fun i => UInt8.ofNat (n / 256 ^ i)

theorem length_hash (b : Bytes) : (hash b).length = 32 := by simp [hash]

/-- The signature of a payload under a public key. -/
def signature (publicKey payload : Bytes) : Bytes :=
  hash (0 :: (publicKey ++ payload)) ++ hash (1 :: (publicKey ++ payload))

/-- Signs with the key pair a secret key text spells: 32 secret bytes and
the public key after them. -/
def sign (secretKey : String) (payload : Bytes) : Option Bytes :=
  match hexDecode secretKey with
  | some pair => if pair.length = 64 then some (signature (pair.drop 32) payload) else none
  | none => none

/-- The two parties' public keys, added byte by byte. -/
def sharedSecret (secretKey : String) (publicKey : Bytes) : Option Bytes :=
  (hexDecode secretKey).map fun pair => (pair.drop 32).zipWith (· + ·) publicKey

/-- The text, behind a tag of 32 bytes. -/
def encrypt (key nonce plaintext aad : Bytes) : Bytes :=
  hash (key ++ nonce ++ aad ++ plaintext) ++ plaintext

/-- Which opens under the same key, nonce and associated data. -/
def decrypt (key nonce ciphertext aad : Bytes) : Option Bytes :=
  if ciphertext.take 32 = hash (key ++ nonce ++ aad ++ ciphertext.drop 32) then
    some (ciphertext.drop 32)
  else none

theorem decrypt_encrypt (k n p a : Bytes) : decrypt k n (encrypt k n p a) a = some p := by
  have htake : (encrypt k n p a).take 32 = hash (k ++ n ++ a ++ p) := by
    rw [encrypt, List.take_append_of_le_length (by rw [length_hash]),
      List.take_of_length_le (by rw [length_hash])]
  have hdrop : (encrypt k n p a).drop 32 = p := by
    rw [encrypt, ← length_hash (k ++ n ++ a ++ p), List.drop_left]
  rw [decrypt, htake, hdrop, if_pos rfl]

/-- The record a text was written from, if it was. -/
noncomputable def readBack {α : Type} (toJson : α → Json) (b : Bytes) : Option α :=
  open Classical in if h : ∃ a, (toJson a).compact = b then some h.choose else none

theorem readBack_compact {α : Type} {toJson : α → Json} (hinj : Function.Injective toJson)
    (a : α) : readBack toJson (toJson a).compact = some a := by
  have hex : ∃ a', (toJson a').compact = (toJson a).compact := ⟨a, rfl⟩
  rw [readBack, dif_pos hex]
  exact congrArg some (hinj (Json.compact_injective hex.choose_spec))

theorem envelope_toJson_injective : Function.Injective Envelope.toJson := by
  rintro ⟨⟩ ⟨⟩ h
  simpa [Envelope.toJson, Message.toJson_injective.eq_iff] using h

theorem policyEvent_toJson_injective : Function.Injective PolicyEvent.toJson := by
  rintro ⟨⟩ ⟨⟩ h
  simpa [PolicyEvent.toJson] using h

theorem moderationEvent_toJson_injective : Function.Injective ModerationEvent.toJson := by
  rintro ⟨⟩ ⟨⟩ h
  simpa [ModerationEvent.toJson] using h

end Simulated

open Simulated in
/-- The simulated libraries. -/
@[reducible] noncomputable def simulated : Primitives where
  blake3 := hash
  length_blake3 := length_hash
  verify publicKey sig payload := sig == signature publicKey payload
  sign := Simulated.sign
  base64Encode := hexEncode
  base64Decode := hexDecode
  base64Decode_base64Encode := hexDecode_hexEncode
  sharedSecret := Simulated.sharedSecret
  encrypt := Simulated.encrypt
  decrypt := Simulated.decrypt
  decrypt_encrypt := Simulated.decrypt_encrypt
  readEnvelope := readBack Envelope.toJson
  readEnvelope_compact := readBack_compact envelope_toJson_injective
  readPolicyEvent := readBack PolicyEvent.toJson
  readPolicyEvent_compact := readBack_compact policyEvent_toJson_injective
  readModerationEvent := readBack ModerationEvent.toJson
  readModerationEvent_compact := readBack_compact moderationEvent_toJson_injective

namespace Simulated

/-- The identity whose key bytes are all `n`. -/
def identity (n : UInt8) : KeypairFile where
  keyAlias := none
  publicKey := hexEncode (List.replicate 32 n)
  secretKey := hexEncode (List.replicate 32 0 ++ List.replicate 32 n)

/-- What an identity signs, as `sign_bytes` writes it. -/
def signatureOf (n : UInt8) (payload : Bytes) : String :=
  hexEncode (signature (List.replicate 32 n) payload)

section

attribute [local instance] simulated

theorem signBytes_identity (n : UInt8) (payload : Bytes) :
    (identity n).signBytes payload = .ok (signatureOf n payload) := by
  have hsign : Primitives.sign (identity n).secretKey payload =
      some (signature (List.replicate 32 n) payload) := by
    change Simulated.sign (hexEncode _) payload = _
    rw [Simulated.sign, hexDecode_hexEncode]
    simp
  rw [KeypairFile.signBytes, hsign]
  rfl

/-- **What an identity signed verifies as its own.** -/
theorem verifyBytes_signatureOf (n : UInt8) (payload : Bytes) :
    verifyBytes (identity n).publicKey (signatureOf n payload) payload = .ok () := by
  have hverify : Primitives.verify (List.replicate 32 n)
      (signature (List.replicate 32 n) payload) payload = true := beq_self_eq_true _
  have hlength : (signature (List.replicate 32 n) payload).length = 64 := by
    simp [signature, length_hash]
  simp only [verifyBytes, identity, signatureOf, bind_eq_ok, hexDecode_hexEncode, orBail_eq_ok,
    bailIf_eq_ok]
  exact ⟨_, rfl, (), by simp, _, rfl, (), not_not.2 hlength, by rw [hverify]; simp⟩

@[simp] theorem validatePublicKey_identity (n : UInt8) :
    validatePublicKey (identity n).publicKey = .ok () := by
  simp [validatePublicKey, identity, bind_eq_ok]

/-- A message as `Envelope::sign` sends it. -/
def envelope (chan : ChannelRef) (n : UInt8) (msg : Message) : Envelope where
  id := hexEncode (hash msg.toJson.compact)
  channel := chan.fullName
  sender := (identity n).publicKey
  fromAlias := none
  ts := msg.ts
  sig := signatureOf n (signedPayload chan.fullName msg)
  msg := msg

theorem sign_identity (chan : ChannelRef) (n : UInt8) (msg : Message) :
    Envelope.sign (identity n) chan.fullName msg = .ok (envelope chan n msg) := by
  rw [Envelope.sign, signBytes_identity]
  rfl

theorem verify_envelope (chan : ChannelRef) (n : UInt8) (msg : Message) :
    (envelope chan n msg).verify = .ok () := by
  refine Envelope.verify_ok_iff.2 ⟨rfl, rfl, ?_⟩
  exact verifyBytes_signatureOf n _

/-! ### Signed histories -/

/-- An event as `sign_policy_event` makes it. -/
def policyEvent (chan : ChannelRef) (n : UInt8) (ts : Int64) (previous : Option String)
    (action : PolicyAction) : PolicyEvent :=
  let payload := policyEventPayload chan.fullName (identity n).publicKey ts previous action
  { id := hexEncode (hash payload.compact), channel := chan.fullName, actor := (identity n).publicKey, ts,
    previous, action, sig := signatureOf n (utf8 "embernet-policy-v1\n" ++ payload.compact) }

theorem signPolicyEvent_identity (chan : ChannelRef) (n : UInt8) (now : Int64)
    (previous : Option String) (action : PolicyAction) :
    signPolicyEvent chan (identity n) now previous action =
      .ok (policyEvent chan n now previous action) := by
  rw [signPolicyEvent, signBytes_identity]
  rfl

theorem derivePolicyStep_policyEvent {chan : ChannelRef} {s : PolicyCursor} {n : UInt8}
    {ts : Int64} {action : PolicyAction} {p : ChannelPolicy}
    (h : applyPolicyAction s.policy (identity n).publicKey action = .ok p) :
    derivePolicyStep chan s (policyEvent chan n ts s.previous action) =
      .ok ⟨p, some (policyEvent chan n ts s.previous action).id⟩ :=
  derivePolicyStep_ok.2 ⟨rfl, rfl, rfl, verifyBytes_signatureOf n _, h, rfl⟩

/-- The events of a list of actors and actions, each after the last. -/
def policyChain (chan : ChannelRef) (previous : Option String) :
    List (UInt8 × PolicyAction) → List PolicyEvent
  | [] => []
  | (n, action) :: rest =>
    let event := policyEvent chan n 0 previous action
    event :: policyChain chan (some event.id) rest

/-- What the actions alone lead to. -/
def applyAll (policy : ChannelPolicy) (steps : List (UInt8 × PolicyAction)) :
    Except Error ChannelPolicy :=
  steps.foldlM (fun p step => applyPolicyAction p (identity step.1).publicKey step.2) policy

theorem replay_policyChain {chan : ChannelRef} {s : PolicyCursor}
    {steps : List (UInt8 × PolicyAction)} {p : ChannelPolicy}
    (h : applyAll s.policy steps = .ok p) :
    ∃ t, Replay.replay (derivePolicyStep chan) s (policyChain chan s.previous steps) = .ok t ∧
      t.policy = p := by
  induction steps generalizing s with
  | nil => exact ⟨s, rfl, by cases h; rfl⟩
  | cons step rest ih =>
    obtain ⟨n, action⟩ := step
    obtain ⟨q, hq, hrest⟩ := bind_eq_ok.1 h
    obtain ⟨t, ht, hp⟩ := @ih ⟨q, some (policyEvent chan n 0 s.previous action).id⟩ hrest
    exact ⟨t, Replay.replay_cons_ok.2 ⟨_, derivePolicyStep_policyEvent hq, ht⟩, hp⟩

/-- **A signed history derives what its actions lead to.** -/
theorem derivePolicy_policyChain (chan : ChannelRef) (steps : List (UInt8 × PolicyAction))
    {p : ChannelPolicy} (h : applyAll .default steps = .ok p) :
    derivePolicy chan (policyChain chan none steps) = .ok p :=
  derivePolicy_ok.2 (replay_policyChain (s := .start) h)

/-- A moderation event as `sign_moderation_event` makes it. -/
def moderationEvent (chan : ChannelRef) (n : UInt8) (ts : Int64) (previous : Option String)
    (policyHead : String) (action : ModerationAction) : ModerationEvent :=
  let payload :=
    moderationEventPayload chan.fullName (identity n).publicKey ts previous policyHead action
  { id := hexEncode (hash payload.compact), channel := chan.fullName,
    actor := (identity n).publicKey, ts, previous, policyHead, action,
    sig := signatureOf n (utf8 "embernet-moderation-v1\n" ++ payload.compact) }

theorem deriveModerationStep_moderationEvent {chan : ChannelRef} {P : List PolicyEvent}
    {s : ModerationCursor} {n : UInt8} {ts : Int64} {policyHead : String} {position : ℕ}
    {policy : ChannelPolicy} {action : ModerationAction} {state : ModerationState}
    (hcited : CitedPolicy chan P policyHead position policy)
    (hallow : policyAllowsModeration policy (identity n).publicKey = true)
    (haction : applyModerationAction s.state action = .ok state) :
    deriveModerationStep chan P s (moderationEvent chan n ts s.previous policyHead action) =
      .ok ⟨state, some (moderationEvent chan n ts s.previous policyHead action).id⟩ :=
  deriveModerationStep_ok.2 ⟨rfl, rfl, ⟨position, policy, hcited, hallow⟩, rfl,
    verifyBytes_signatureOf n _, haction, rfl⟩

end

/-- The channel of the examples. -/
def general : ChannelRef := ⟨"general", by decide⟩

end Simulated

end Embernet
