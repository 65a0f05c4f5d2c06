import Embernet.Lib.Ndjson
import Embernet.Model.Types
/-!
# Primitives — what the program takes from its libraries

Hashing, signatures, key agreement, authenticated encryption, base64 and
the JSON readers are library code. The model takes them as they are
given, with the behaviour they document: a BLAKE3 hash has 32 bytes, what
was encoded decodes, what was sealed opens, and what was written reads
back. That a hash has no collisions, or that a signature cannot be
forged, is assumed nowhere here; a theorem that needs it says on which
inputs.
-/

set_option autoImplicit false

namespace Embernet

/-- What an object is written as is visible on its line. -/
theorem blank_obj (fields : List (String × Json)) :
    Ndjson.blank (Json.obj fields).compact = false ∧
      (Json.obj fields).compact.getLast? ≠ some 0x0d := by
  obtain ⟨body, hbody⟩ := Json.compact_obj fields
  rw [hbody]
  refine ⟨rfl, ?_⟩
  rw [← List.cons_append, List.getLast?_append_of_ne_nil _ (by simp)]
  simp

/-- The libraries. -/
class Primitives where
  /-- `blake3::hash`. -/
  blake3 : Bytes → Bytes
  length_blake3 : ∀ b, (blake3 b).length = 32
  /-- `VerifyingKey::from_bytes(public_key)` and `verify(payload, signature)`
  both succeed. -/
  verify : (publicKey signature payload : Bytes) → Bool
  /-- The Ed25519 signature by the key pair a `secret_key` text holds, if
  it holds one. -/
  sign : (secretKey : String) → (payload : Bytes) → Option Bytes
  base64Encode : Bytes → String
  base64Decode : String → Option Bytes
  base64Decode_base64Encode : ∀ b, base64Decode (base64Encode b) = some b
  /-- The X25519 secret that a key pair shares with an Ed25519 public key;
  none where either is invalid or the exchange is not contributory. -/
  sharedSecret : (secretKey : String) → (publicKey : Bytes) → Option Bytes
  /-- `XChaCha20Poly1305::encrypt`. -/
  encrypt : (key nonce plaintext aad : Bytes) → Bytes
  /-- `XChaCha20Poly1305::decrypt`. -/
  decrypt : (key nonce ciphertext aad : Bytes) → Option Bytes
  decrypt_encrypt : ∀ k n p a, decrypt k n (encrypt k n p a) a = some p
  /-- `serde_json::from_slice::<Envelope>`. -/
  readEnvelope : Bytes → Option Envelope
  readEnvelope_compact : ∀ e : Envelope, readEnvelope e.toJson.compact = some e
  /-- `serde_json::from_str::<PolicyEvent>`. -/
  readPolicyEvent : Bytes → Option PolicyEvent
  readPolicyEvent_compact : ∀ e : PolicyEvent, readPolicyEvent e.toJson.compact = some e
  /-- `serde_json::from_str::<ModerationEvent>`. -/
  readModerationEvent : Bytes → Option ModerationEvent
  readModerationEvent_compact :
    ∀ e : ModerationEvent, readModerationEvent e.toJson.compact = some e

open Primitives

variable [Primitives]

/-- `hex::encode(blake3::hash(bytes))`. -/
def hashHex (bytes : Bytes) : String := hexEncode (blake3 bytes)

theorem hashHex_inj_on {U : Set Bytes} (hU : Set.InjOn blake3 U) {a b : Bytes} (ha : a ∈ U)
    (hb : b ∈ U) (h : hashHex a = hashHex b) : a = b :=
  hU ha hb (hexEncode_injective h)

/-! ## Records of a file -/

/-- Records whose writer is an object and whose reader reads it back. -/
def objectCodec {α : Type} (toJson : α → Json) (fields : α → List (String × Json))
    (read : Bytes → Option α) (hobj : ∀ a, toJson a = .obj (fields a))
    (hread : ∀ a, read (toJson a).compact = some a) : Ndjson.Codec α where
  write a := (toJson a).compact
  read := read
  read_write := hread
  newline_not_mem a := Json.newline_not_mem_compact _
  visible a := by rw [hobj]; exact blank_obj _

/-- One envelope a line, as `log.ndjson` keeps them. -/
def envelopeCodec : Ndjson.Codec Envelope :=
  objectCodec Envelope.toJson _ readEnvelope (fun _ => rfl) readEnvelope_compact

/-- One policy event a line, as `policy.ndjson` keeps them. -/
def policyCodec : Ndjson.Codec PolicyEvent :=
  objectCodec PolicyEvent.toJson _ readPolicyEvent (fun _ => rfl) readPolicyEvent_compact

/-- One moderation event a line, as `moderation.ndjson` keeps them. -/
def moderationCodec : Ndjson.Codec ModerationEvent :=
  objectCodec ModerationEvent.toJson _ readModerationEvent (fun _ => rfl)
    readModerationEvent_compact

end Embernet
