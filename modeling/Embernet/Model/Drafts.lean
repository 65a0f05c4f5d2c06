import Embernet.Model.StoreOp
/-!
# Drafts — a post between its signing and its append

`store.rs`. A post is made in two calls: `sign_message_for_channel` makes
an envelope of a message, and `append_message` takes the envelope later.
The first reads the policy once, and makes of the message what that policy
asks for. No lock is held between these steps, so whatever else a node
does may fall between them: other posts, a switch of the visibility,
policies and messages that arrive from a peer.
-/

set_option autoImplicit false

namespace Embernet

section Drafts

variable [Primitives]

/-- `sign_message_for_channel`, once it has read the policy. -/
def signUnder (chan : ChannelRef) (policy : ChannelPolicy) (signer : KeypairFile)
    (message : Message) (raw nonce : Bytes) : StoreM Envelope :=
  if policy.visibility = .private_ then do
    let keys ← loadKeys chan.fullName
    if keys.isEmpty ∧ policy.owner = some signer.publicKey then
      let _ ← generateChannelKey chan.fullName raw
    let encrypted ← encryptMessage chan.fullName nonce message
    (Envelope.sign signer chan.fullName encrypted : Except Error Envelope)
  else (Envelope.sign signer chan.fullName message : Except Error Envelope)

/-- The two parts of `sign_message_for_channel`. -/
theorem signMessageForChannel_eq (chan : ChannelRef) (signer : KeypairFile) (message : Message)
    (raw nonce : Bytes) :
    signMessageForChannel chan signer message raw nonce = (do
      let policy ← readChannelPolicy chan
      signUnder chan policy signer message raw nonce) := rfl

/-- How far a post has come. -/
inductive Draft
  /-- The policy was read. -/
  | looked (signer : KeypairFile) (message : Message) (policy : ChannelPolicy)
  /-- The envelope was signed, and is to be appended. -/
  | signed (message : Message) (policy : ChannelPolicy) (env : Envelope)

/-- A node and the posts that are under way on it. -/
structure Outbox where
  node : Datadir
  drafts : ℕ → Option Draft

/-- A step of a post, or another operation of the node. What arrives from
a peer is among these: an envelope comes in by `append_message`. -/
inductive OutboxOp
  | look (post : ℕ) (signer : KeypairFile) (message : Message)
  | sign (post : ℕ) (raw nonce : Bytes)
  | append (post : ℕ)
  | store (op : StoreOp)

namespace Outbox

variable (chan : ChannelRef) (s : Outbox)

/-- The outbox with this draft for the post. -/
def set (s : Outbox) (post : ℕ) (draft : Option Draft) : Outbox :=
  { s with drafts := Function.update s.drafts post draft }

/-- The read of the policy, with which a post begins. -/
def look (post : ℕ) (signer : KeypairFile) (message : Message) : Outbox :=
  match readChannelPolicy chan s.node with
  | .ok policy => s.set post (some (.looked signer message policy))
  | .error _ => s.set post none

/-- The signing. A post that fails is given up. -/
def sign (post : ℕ) (raw nonce : Bytes) : Outbox :=
  match s.drafts post with
  | some (.looked signer message policy) =>
    match (signUnder chan policy signer message raw nonce).exec s.node with
    | (.ok env, d) => { s.set post (some (.signed message policy env)) with node := d }
    | (.error _, d) => { s.set post none with node := d }
  | _ => s

/-- The append of what was signed. -/
def append (post : ℕ) : Outbox :=
  match s.drafts post with
  | some (.signed _ _ env) =>
    { s.set post none with node := ((appendMessage chan env).exec s.node).2 }
  | _ => s

/-- The outbox after a step. -/
def step : OutboxOp → Outbox
  | .look post signer message => s.look chan post signer message
  | .sign post raw nonce => s.sign chan post raw nonce
  | .append post => s.append chan post
  | .store op => { s with node := op.exec chan s.node }

variable {s} {post : ℕ} {draft : Option Draft} {signer : KeypairFile} {message : Message}
  {policy : ChannelPolicy} {raw nonce : Bytes} {env : Envelope} {d : Datadir}

omit [Primitives] in
@[simp] theorem set_node : (s.set post draft).node = s.node := rfl

omit [Primitives] in
@[simp] theorem set_drafts_self : (s.set post draft).drafts post = draft :=
  Function.update_self ..

omit [Primitives] in
theorem set_drafts_ne {other : ℕ} (hne : other ≠ post) :
    (s.set post draft).drafts other = s.drafts other :=
  Function.update_of_ne hne ..

theorem look_ok (h : readChannelPolicy chan s.node = .ok policy) :
    s.look chan post signer message = s.set post (some (.looked signer message policy)) := by
  rw [look, h]

theorem sign_ok (hdraft : s.drafts post = some (.looked signer message policy))
    (h : (signUnder chan policy signer message raw nonce).exec s.node = (.ok env, d)) :
    s.sign chan post raw nonce =
      { s.set post (some (.signed message policy env)) with node := d } := by
  simp only [sign, hdraft, h]

theorem append_node (hdraft : s.drafts post = some (.signed message policy env)) :
    (s.append chan post).node = ((appendMessage chan env).exec s.node).2 := by
  simp only [append, hdraft]

/-- Only a signed post is appended. -/
theorem append_of_not_signed (h : ∀ message policy env,
    s.drafts post ≠ some (.signed message policy env)) : s.append chan post = s := by
  rw [append]
  split
  · next hdraft => exact absurd hdraft (h _ _ _)
  · rfl

end Outbox

/-- A step of an outbox. -/
def OutboxStep (chan : ChannelRef) (s : Outbox) (l : OutboxOp) (s' : Outbox) : Prop :=
  s' = s.step chan l

end Drafts

end Embernet
