import Embernet.Model.MessageStore
/-!
# Store operations — everything a node does to one channel

The operations of `store.rs` and `crypto.rs` on a channel, with what each
is given: clock readings and random bytes are inputs. `StoreOp.exec` is
the state a node is left in, whether the operation returned or failed.
-/

set_option autoImplicit false

namespace Embernet

/-- An operation on a channel. -/
inductive StoreOp
  | createChannel
  | restrictChannel (signer : KeypairFile) (now now' : Int64)
  | grantRole (signer : KeypairFile) (role : PolicyRole) (publicKey : String) (now now' : Int64)
  | revokeRole (signer : KeypairFile) (role : PolicyRole) (publicKey : String) (raw : Bytes)
      (now now' : Int64)
  | transferOwnership (signer : KeypairFile) (newOwner : String) (raw : Bytes) (now now' : Int64)
  | setChannelVisibility (signer : KeypairFile) (visibility : ChannelVisibility) (raw : Bytes)
      (now now' : Int64)
  | appendRemotePolicyHistory (remote : List PolicyEvent)
  | rebuildPolicyCache
  | savePolicyConflict (events : List PolicyEvent)
  | resolvePolicyConflict (head : String)
  | tombstoneMessage (signer : KeypairFile) (target : String) (reason : Option String)
      (now : Int64)
  | restoreMessage (signer : KeypairFile) (target : String) (now : Int64)
  | appendRemoteModerationHistory (remote : List ModerationEvent)
  | saveModerationConflict (events : List ModerationEvent)
  | resolveModerationConflict (head : String)
  | appendMessage (env : Envelope)
  | chunkSummaries
  | chunkIds (chunkIndex : ℕ)
  | readMessageById (id : String)
  | readChannelTail (n : ℕ) (includeTombstoned : Bool)
  | generateChannelKey (raw : Bytes)
  | acceptKeyOffers (recipient : KeypairFile) (offers : List KeyOffer)
  | signMessageForChannel (signer : KeypairFile) (message : Message) (raw nonce : Bytes)

/-- The operation, without its result. -/
def ignore {α : Type} (x : StoreM α) : StoreM Unit := do
  let _ ← x
  pure ()

theorem exec_ignore {α : Type} (x : StoreM α) (d : Datadir) :
    ((ignore x).exec d).2 = (x.exec d).2 := by
  rw [ignore, Op.exec_bind]
  rcases x.exec d with ⟨_ | _, _⟩ <;> rfl

theorem eq_exec_ignore {α : Type} {x : StoreM α} {r : Except Error α} {d d' : Datadir}
    (h : x.exec d = (r, d')) : d' = ((ignore x).exec d).2 := by
  rw [exec_ignore, h]

variable [Primitives]

/-- What runs. -/
def StoreOp.op (chan : ChannelRef) : StoreOp → StoreM Unit
  | .createChannel => Embernet.createChannel chan
  | .restrictChannel signer now now' => ignore (Embernet.restrictChannel chan signer now now')
  | .grantRole signer role publicKey now now' =>
    ignore (Embernet.grantRole chan signer role publicKey now now')
  | .revokeRole signer role publicKey raw now now' =>
    ignore (Embernet.revokeRole chan signer role publicKey raw now now')
  | .transferOwnership signer newOwner raw now now' =>
    ignore (Embernet.transferOwnership chan signer newOwner raw now now')
  | .setChannelVisibility signer visibility raw now now' =>
    ignore (Embernet.setChannelVisibility chan signer visibility raw now now')
  | .appendRemotePolicyHistory remote => ignore (Embernet.appendRemotePolicyHistory chan remote)
  | .rebuildPolicyCache => ignore (Embernet.rebuildPolicyCache chan)
  | .savePolicyConflict events => ignore (Embernet.savePolicyConflict chan events)
  | .resolvePolicyConflict head => ignore (Embernet.resolvePolicyConflict chan head)
  | .tombstoneMessage signer target reason now =>
    ignore (Embernet.tombstoneMessage chan signer target reason now)
  | .restoreMessage signer target now => ignore (Embernet.restoreMessage chan signer target now)
  | .appendRemoteModerationHistory remote =>
    ignore (Embernet.appendRemoteModerationHistory chan remote)
  | .saveModerationConflict events => ignore (Embernet.saveModerationConflict chan events)
  | .resolveModerationConflict head => ignore (Embernet.resolveModerationConflict chan head)
  | .appendMessage env => ignore (Embernet.appendMessage chan env)
  | .chunkSummaries => ignore (Embernet.chunkSummaries chan)
  | .chunkIds chunkIndex => ignore (Embernet.chunkIds chan chunkIndex)
  | .readMessageById id => ignore (Embernet.readMessageById chan id)
  | .readChannelTail n includeTombstoned =>
    ignore (Embernet.readChannelTail chan n includeTombstoned)
  | .generateChannelKey raw => ignore (Embernet.generateChannelKey chan.fullName raw)
  | .acceptKeyOffers recipient offers =>
    ignore (Embernet.acceptKeyOffers chan.fullName recipient offers)
  | .signMessageForChannel signer message raw nonce =>
    ignore (Embernet.signMessageForChannel chan signer message raw nonce)

/-- The node after the operation, returned or failed. -/
def StoreOp.exec (chan : ChannelRef) (op : StoreOp) (d : Datadir) : Datadir :=
  ((op.op chan).exec d).2

/-- One operation as a step of the node. -/
def StoreStep (chan : ChannelRef) (d : Datadir) (op : StoreOp) (d' : Datadir) : Prop :=
  d' = op.exec chan d

/-- One operation on one of the channels as a step of the node. -/
def NodeStep (d : Datadir) (l : ChannelRef × StoreOp) (d' : Datadir) : Prop :=
  StoreStep l.1 d l.2 d'

end Embernet
