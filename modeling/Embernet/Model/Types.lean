import Mathlib.Data.Option.Basic
import Std.Data.ExtTreeMap
import Embernet.Lib.Json
import Embernet.Lib.Op
/-!
# Types — what the store and the protocol exchange

The records of `proto.rs`, `store.rs` and `crypto.rs`, and the JSON each
is written as. Timestamps are 64-bit and the policy version is 32-bit, as
in the source; every record that is hashed or signed is written without
loss (`Message.toJson_injective`, `policyEventPayload_injective`,
`moderationEventPayload_injective`).
-/

set_option autoImplicit false

namespace Embernet

/-- An error: what its contexts say, the outermost first, and its cause. -/
abbrev Error := List String

/-- `bail!(message)`. -/
def bail.{u} {m : Type → Type u} {α : Type} [MonadExcept Error m] (message : String) : m α :=
  throw [message]

/-- `result.context(message)`. -/
def context {α : Type} (message : String) : Except Error α → Except Error α
  | .ok a => .ok a
  | .error e => .error (message :: e)

@[simp] theorem context_eq_ok {α : Type} {message : String} {r : Except Error α} {a : α} :
    context message r = .ok a ↔ r = .ok a := by
  cases r <;> simp [context]

/-! ## Messages -/

/-- What kind of message it is. -/
inductive MsgType
  | post
  | reply
  | vote
  | mod
  deriving DecidableEq

/-- The body of a message: in the clear, or sealed under a channel key. -/
inductive Body
  | text (text : String)
  | encrypted (keyId nonce ciphertext : String)
  deriving DecidableEq

/-- What an author writes, before it is signed. -/
structure Message where
  ts : Int64
  type : MsgType
  title : Option String
  tags : List String
  refs : List String
  body : Body
  deriving DecidableEq

/-- A message, signed for a channel. -/
structure Envelope where
  id : String
  channel : String
  sender : String
  fromAlias : Option String
  ts : Int64
  sig : String
  msg : Message
  deriving DecidableEq

/-- An identity: `secret_key` is the base64 of the Ed25519 key pair. -/
structure KeypairFile where
  keyAlias : Option String
  publicKey : String
  secretKey : String
  deriving DecidableEq

/-! ## Channel policy -/

/-- Whether everybody writes, or those named. -/
inductive PolicyMode
  | open_
  | restricted
  deriving DecidableEq

/-- Whether everybody reads, or those named. -/
inductive ChannelVisibility
  | public_
  | private_
  deriving DecidableEq

/-- What a channel allows, and to whom. -/
structure ChannelPolicy where
  version : UInt32
  mode : PolicyMode
  visibility : ChannelVisibility
  owner : Option String
  moderators : List String
  writers : List String
  readers : List String
  deriving DecidableEq

/-- `ChannelPolicy::default()`: anyone writes, anyone reads, nobody owns. -/
def ChannelPolicy.default : ChannelPolicy where
  version := 1
  mode := .open_
  visibility := .public_
  owner := none
  moderators := []
  writers := []
  readers := []

/-- The lists of a policy that a key may be on. -/
inductive PolicyRole
  | moderator
  | writer
  | reader
  deriving DecidableEq

/-- What a policy event does. An adoption takes an unsigned policy over as it
is. -/
inductive PolicyAction
  | restrict (owner : String)
  | adopt (policy : ChannelPolicy)
  | grant (role : PolicyRole) (publicKey : String)
  | revoke (role : PolicyRole) (publicKey : String)
  | transferOwner (newOwner : String)
  | setVisibility (visibility : ChannelVisibility)
  deriving DecidableEq

/-- One signed event of a policy history. `previous` is the id of the event
before it, none for the first. -/
structure PolicyEvent where
  id : String
  channel : String
  actor : String
  ts : Int64
  previous : Option String
  action : PolicyAction
  sig : String
  deriving DecidableEq

/-! ## Moderation -/

/-- A message is hidden, or shown again. -/
inductive ModerationAction
  | tombstone (target : String) (reason : Option String)
  | restore (target : String)
  deriving DecidableEq

/-- One signed event of a moderation history. Beside the event before it, it
cites the policy event under which its actor moderates. -/
structure ModerationEvent where
  id : String
  channel : String
  actor : String
  ts : Int64
  previous : Option String
  policyHead : String
  action : ModerationAction
  sig : String
  deriving DecidableEq

/-- What is hidden, and why. -/
structure ModerationState where
  tombstoned : Std.ExtTreeMap String (Option String) := ∅

/-! ## Channel keys -/

/-- A symmetric key of a private channel, in base64, under the hash of its
bytes. -/
structure ChannelKey where
  id : String
  key : String
  deriving DecidableEq

/-- A channel key, sealed for one recipient and signed by its sender. -/
structure KeyOffer where
  channel : String
  keyId : String
  sender : String
  recipient : String
  nonce : String
  ciphertext : String
  sig : String
  deriving DecidableEq

/-- The hash of one bucket of a channel's message ids. -/
structure ChunkSummary where
  index : ℕ
  count : ℕ
  hash : String
  deriving DecidableEq

/-! ## JSON -/

open Json (num str arr obj opt)

/-- `rename_all = "lowercase"`. -/
def MsgType.toJson : MsgType → Json
  | .post => str "post"
  | .reply => str "reply"
  | .vote => str "vote"
  | .mod => str "mod"

/-- Told apart by the member `kind`. -/
def Body.toJson : Body → Json
  | .text s => obj [("kind", str "Text"), ("text", str s)]
  | .encrypted keyId nonce ciphertext =>
    obj [("kind", str "Encrypted"), ("key_id", str keyId), ("nonce", str nonce),
      ("ciphertext", str ciphertext)]

/-- A `Vec<String>`. -/
def strings (ss : List String) : Json := arr (ss.map str)

/-- An `i64`. -/
def timestamp (ts : Int64) : Json := num ts.toInt

/-- What a message id hashes, and a signature covers behind the channel. -/
def Message.toJson (m : Message) : Json :=
  obj [("ts", timestamp m.ts), ("type", m.type.toJson), ("title", opt str m.title),
    ("tags", strings m.tags), ("refs", strings m.refs), ("body", m.body.toJson)]

/-- A record of `log.ndjson`. -/
def Envelope.toJson (env : Envelope) : Json :=
  obj [("id", str env.id), ("channel", str env.channel), ("from", str env.sender),
    ("from_alias", opt str env.fromAlias), ("ts", timestamp env.ts), ("sig", str env.sig),
    ("msg", env.msg.toJson)]

/-- `rename_all = "snake_case"`, as of the two below. -/
def PolicyMode.toJson : PolicyMode → Json
  | .open_ => str "open"
  | .restricted => str "restricted"

/-- The visibility in lower case. -/
def ChannelVisibility.toJson : ChannelVisibility → Json
  | .public_ => str "public"
  | .private_ => str "private"

/-- Every member is written, also those that a reader takes as defaults. -/
def ChannelPolicy.toJson (p : ChannelPolicy) : Json :=
  obj [("version", num p.version.toNat), ("mode", p.mode.toJson),
    ("visibility", p.visibility.toJson), ("owner", opt str p.owner),
    ("moderators", strings p.moderators), ("writers", strings p.writers),
    ("readers", strings p.readers)]

/-- The role in lower case. -/
def PolicyRole.toJson : PolicyRole → Json
  | .moderator => str "moderator"
  | .writer => str "writer"
  | .reader => str "reader"

/-- Told apart by the member `type`. -/
def PolicyAction.toJson : PolicyAction → Json
  | .restrict owner => obj [("type", str "restrict"), ("owner", str owner)]
  | .adopt policy => obj [("type", str "adopt"), ("policy", policy.toJson)]
  | .grant role publicKey =>
    obj [("type", str "grant"), ("role", role.toJson), ("public_key", str publicKey)]
  | .revoke role publicKey =>
    obj [("type", str "revoke"), ("role", role.toJson), ("public_key", str publicKey)]
  | .transferOwner newOwner => obj [("type", str "transfer_owner"), ("new_owner", str newOwner)]
  | .setVisibility visibility =>
    obj [("type", str "set_visibility"), ("visibility", visibility.toJson)]

/-- What a policy event's id hashes and its signature covers. -/
def policyEventPayload (channel actor : String) (ts : Int64) (previous : Option String)
    (action : PolicyAction) : Json :=
  obj [("channel", str channel), ("actor", str actor), ("ts", timestamp ts),
    ("previous", opt str previous), ("action", action.toJson)]

/-- Its own payload, made of the fields it came with. -/
def PolicyEvent.payload (e : PolicyEvent) : Json :=
  policyEventPayload e.channel e.actor e.ts e.previous e.action

/-- A record of `policy.ndjson`. -/
def PolicyEvent.toJson (e : PolicyEvent) : Json :=
  obj [("id", str e.id), ("channel", str e.channel), ("actor", str e.actor),
    ("ts", timestamp e.ts), ("previous", opt str e.previous), ("action", e.action.toJson),
    ("sig", str e.sig)]

/-- Told apart by the member `type`. -/
def ModerationAction.toJson : ModerationAction → Json
  | .tombstone target reason =>
    obj [("type", str "tombstone"), ("target", str target), ("reason", opt str reason)]
  | .restore target => obj [("type", str "restore"), ("target", str target)]

/-- What a moderation event's id hashes and its signature covers. -/
def moderationEventPayload (channel actor : String) (ts : Int64) (previous : Option String)
    (policyHead : String) (action : ModerationAction) : Json :=
  obj [("channel", str channel), ("actor", str actor), ("ts", timestamp ts),
    ("previous", opt str previous), ("policy_head", str policyHead), ("action", action.toJson)]

/-- Its own payload, the cited policy event in it. -/
def ModerationEvent.payload (e : ModerationEvent) : Json :=
  moderationEventPayload e.channel e.actor e.ts e.previous e.policyHead e.action

/-- A record of `moderation.ndjson`. -/
def ModerationEvent.toJson (e : ModerationEvent) : Json :=
  obj [("id", str e.id), ("channel", str e.channel), ("actor", str e.actor),
    ("ts", timestamp e.ts), ("previous", opt str e.previous),
    ("policy_head", str e.policyHead), ("action", e.action.toJson), ("sig", str e.sig)]

/-- What the signature of a key offer covers. -/
def keyOfferPayload (channel keyId sender recipient nonce ciphertext : String) : Json :=
  obj [("channel", str channel), ("key_id", str keyId), ("sender", str sender),
    ("recipient", str recipient), ("nonce", str nonce), ("ciphertext", str ciphertext)]

/-! ### Nothing is lost in writing -/

theorem str_injective : Function.Injective str := fun _ _ h => Json.str.inj h

theorem opt_str_injective : Function.Injective (opt str) :=
  Json.opt_injective str_injective (by simp)

@[simp] theorem opt_str_inj {a b : Option String} : opt str a = opt str b ↔ a = b :=
  opt_str_injective.eq_iff

@[simp] theorem strings_inj {ss ts : List String} : strings ss = strings ts ↔ ss = ts := by
  simp only [strings, Json.arr.injEq]
  exact (List.map_injective_iff.2 str_injective).eq_iff

@[simp] theorem timestamp_inj {s t : Int64} : timestamp s = timestamp t ↔ s = t := by
  simp only [timestamp, Json.num.injEq]
  exact ⟨fun h => Int64.toInt.inj h, fun h => by rw [h]⟩

@[simp] theorem MsgType.toJson_inj {a b : MsgType} : a.toJson = b.toJson ↔ a = b := by
  cases a <;> cases b <;> simp [MsgType.toJson]

@[simp] theorem Body.toJson_inj {a b : Body} : a.toJson = b.toJson ↔ a = b := by
  cases a <;> cases b <;> simp [Body.toJson]

theorem Message.toJson_injective : Function.Injective Message.toJson := by
  rintro ⟨⟩ ⟨⟩ h
  simpa [Message.toJson] using h

@[simp] theorem PolicyMode.toJson_inj {a b : PolicyMode} : a.toJson = b.toJson ↔ a = b := by
  cases a <;> cases b <;> simp [PolicyMode.toJson]

@[simp] theorem ChannelVisibility.toJson_inj {a b : ChannelVisibility} :
    a.toJson = b.toJson ↔ a = b := by
  cases a <;> cases b <;> simp [ChannelVisibility.toJson]

@[simp] theorem ChannelPolicy.toJson_inj {p q : ChannelPolicy} :
    p.toJson = q.toJson ↔ p = q := by
  have hversion : ∀ a b : UInt32, (a.toNat : ℤ) = b.toNat ↔ a = b := fun a b => by
    rw [Int.natCast_inj, UInt32.toNat_inj]
  obtain ⟨⟩ := p
  obtain ⟨⟩ := q
  simp [ChannelPolicy.toJson, hversion]

@[simp] theorem PolicyRole.toJson_inj {a b : PolicyRole} : a.toJson = b.toJson ↔ a = b := by
  cases a <;> cases b <;> simp [PolicyRole.toJson]

@[simp] theorem PolicyAction.toJson_inj {a b : PolicyAction} : a.toJson = b.toJson ↔ a = b := by
  cases a <;> cases b <;> simp [PolicyAction.toJson]

@[simp] theorem ModerationAction.toJson_inj {a b : ModerationAction} :
    a.toJson = b.toJson ↔ a = b := by
  cases a <;> cases b <;> simp [ModerationAction.toJson]

/-- **Two policy events of one payload differ in their ids and signatures
only.** -/
theorem policyEventPayload_inj {c c' a a' : String} {t t' : Int64} {p p' : Option String}
    {x x' : PolicyAction} :
    policyEventPayload c a t p x = policyEventPayload c' a' t' p' x' ↔
      c = c' ∧ a = a' ∧ t = t' ∧ p = p' ∧ x = x' := by
  simp [policyEventPayload]

/-- Two moderation events have one payload for the same fields only. -/
theorem moderationEventPayload_inj {c c' a a' h h' : String} {t t' : Int64}
    {p p' : Option String} {x x' : ModerationAction} :
    moderationEventPayload c a t p h x = moderationEventPayload c' a' t' p' h' x' ↔
      c = c' ∧ a = a' ∧ t = t' ∧ p = p' ∧ h = h' ∧ x = x' := by
  simp [moderationEventPayload]

end Embernet
