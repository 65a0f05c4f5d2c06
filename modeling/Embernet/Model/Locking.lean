import Embernet.Lib.Locks
import Embernet.Model.StoreOp
/-!
# Locking — the advisory locks each operation takes

`store.rs` and `crypto.rs`. A channel's directory has four files that are
locked: `log.ndjson` itself, `moderation.lock`, `policy.lock` and
`channel-keys.lock`. Every function that locks one, or calls another that
does, is a script here under its own name, its `?` and `bail!` a way to
leave it early; a lock is held in a local, so its scope is the rest of the
function. Which branch is taken is left open where it depends on files.
-/

set_option autoImplicit false

namespace Embernet

open Locks Locks.Script

/-- The files of a channel that are locked. -/
inductive LockFile
  | log
  | moderation
  | policy
  | channelKeys
  deriving DecidableEq

/-- The order in which they are taken. -/
def LockFile.rank : LockFile → ℕ
  | log => 0
  | moderation => 1
  | policy => 2
  | channelKeys => 3

namespace Locking

/-- What a function does to the locks of its channel. -/
abbrev LockScript := Script LockFile

/-! ## Policies -/

/-- `read_policy_history_unlocked`. -/
def readPolicyHistoryUnlocked : LockScript := work

/-- `read_policy_history`. -/
def readPolicyHistory : LockScript := locked .policy .shared readPolicyHistoryUnlocked

/-- `read_policy_cache`. -/
def readPolicyCache : LockScript := work

/-- `read_channel_policy`, which reads the history if there is one. -/
def readChannelPolicy : LockScript := either (seq [readPolicyHistory, work]) readPolicyCache

/-- `authorize_read`. -/
def authorizeRead : LockScript := seq [readChannelPolicy, work]

/-- `authorize_append`. -/
def authorizeAppend : LockScript := seq [readChannelPolicy, work]

/-- `append_policy_action`. -/
def appendPolicyAction : LockScript :=
  locked .log .exclusive <| locked .policy .exclusive <|
    seq [readPolicyHistoryUnlocked, either readPolicyCache work, work]

/-- `append_remote_policy_history`. -/
def appendRemotePolicyHistory : LockScript :=
  locked .log .exclusive <| locked .policy .exclusive <| seq [readPolicyHistoryUnlocked, work]

/-- `rebuild_policy_cache`. -/
def rebuildPolicyCache : LockScript :=
  locked .policy .exclusive <| seq [readPolicyHistoryUnlocked, work]

/-- `save_policy_conflict`. -/
def savePolicyConflict : LockScript := work

/-- `list_policy_conflicts`. -/
def listPolicyConflicts : LockScript := work

/-- `resolve_policy_conflict`. -/
def resolvePolicyConflict : LockScript :=
  seq [work, locked .log .exclusive <| locked .policy .exclusive <|
    seq [readPolicyHistoryUnlocked, either savePolicyConflict skip, work]]

/-! ## Keys -/

/-- `load_keys`. -/
def loadKeys : LockScript := work

/-- `generate_channel_key`. -/
def generateChannelKey : LockScript := locked .channelKeys .exclusive <| seq [loadKeys, work]

/-- `current_channel_key`. -/
def currentChannelKey : LockScript := seq [loadKeys, work]

/-- `encrypt_message`. -/
def encryptMessage : LockScript := seq [currentChannelKey, work]

/-- `decrypt_envelope`, which needs keys if there is something to decrypt. -/
def decryptEnvelope : LockScript := either skip (seq [loadKeys, work])

/-- `make_key_offers`. -/
def makeKeyOffers : LockScript := seq [loadKeys, work]

/-- `accept_key_offers`. -/
def acceptKeyOffers : LockScript := locked .channelKeys .exclusive <| seq [loadKeys, work]

/-! ## What users do to a policy -/

/-- `restrict_channel`. -/
def restrictChannel : LockScript := appendPolicyAction

/-- `grant_role`. -/
def grantRole : LockScript := appendPolicyAction

/-- `revoke_role`. -/
def revokeRole : LockScript :=
  seq [work, readChannelPolicy, work, either generateChannelKey skip, appendPolicyAction]

/-- `transfer_ownership`. -/
def transferOwnership : LockScript :=
  seq [work, readChannelPolicy, work, either generateChannelKey skip, appendPolicyAction]

/-- `set_channel_visibility`. -/
def setChannelVisibility (visibility : ChannelVisibility) : LockScript :=
  seq [readChannelPolicy, work, if visibility = .private_ then generateChannelKey else skip,
    appendPolicyAction]

/-- `sign_message_for_channel`. -/
def signMessageForChannel : LockScript :=
  seq [readChannelPolicy,
    either (seq [loadKeys, either generateChannelKey skip, encryptMessage]) skip, work]

/-! ## Moderation -/

/-- `derive_moderation`. -/
def deriveModeration : LockScript := seq [readPolicyHistory, work]

/-- `validate_moderation_history`. -/
def validateModerationHistory : LockScript := deriveModeration

/-- `read_moderation_history_unlocked`, of a file that may not be there. -/
def readModerationHistoryUnlocked : LockScript := either skip (seq [work, deriveModeration])

/-- `read_moderation_history`. -/
def readModerationHistory : LockScript :=
  locked .moderation .shared readModerationHistoryUnlocked

/-- `moderation_state`. -/
def moderationState : LockScript := seq [readModerationHistory, deriveModeration]

/-- `append_moderation_action`. -/
def appendModerationAction : LockScript :=
  locked .log .exclusive <| locked .moderation .exclusive <|
    seq [readModerationHistoryUnlocked, readPolicyHistory, work, deriveModeration, work]

/-- `append_remote_moderation_history`. -/
def appendRemoteModerationHistory : LockScript :=
  locked .log .exclusive <| locked .moderation .exclusive <|
    seq [readModerationHistoryUnlocked, validateModerationHistory, work, deriveModeration, work]

/-- `save_moderation_conflict`. -/
def saveModerationConflict : LockScript := seq [validateModerationHistory, work]

/-- `list_moderation_conflicts`. -/
def listModerationConflicts : LockScript := work

/-- `resolve_moderation_conflict`. -/
def resolveModerationConflict : LockScript :=
  seq [work, validateModerationHistory, locked .log .exclusive <| locked .moderation .exclusive <|
    seq [readModerationHistoryUnlocked, either saveModerationConflict skip, work]]

/-! ## Messages -/

/-- `create_channel`. -/
def createChannel : LockScript := work

/-- `ensure_index`. -/
def ensureIndex : LockScript := work

/-- `append_message`. -/
def appendMessage : LockScript :=
  seq [work, locked .log .exclusive <| seq [authorizeAppend, ensureIndex, either skip work]]

/-- A read through the index: `chunk_summaries`, `chunk_ids`,
`message_ids` and `read_message_by_id`. -/
def readIndexed : LockScript := locked .log .exclusive <| seq [ensureIndex, work]

/-- `read_channel_tail_with_options`. -/
def readChannelTail (n : ℕ) (includeTombstoned : Bool) : LockScript :=
  if n = 0 then skip
  else seq [if includeTombstoned then skip else moderationState, readIndexed]

/-- `read_channel_tail_decrypted_with_options`, of a tail of some length. -/
def readChannelTailDecrypted (n : ℕ) (includeTombstoned : Bool) (length : ℕ) : LockScript :=
  seq (readChannelTail n includeTombstoned :: List.replicate length decryptEnvelope)

/-- `read_verified_log`. -/
def readVerifiedLog : LockScript := locked .log .shared work

/-- `tombstone_message`. -/
def tombstoneMessage : LockScript := seq [readIndexed, appendModerationAction]

/-- `restore_message`. -/
def restoreMessage : LockScript := appendModerationAction

end Locking

/-! ## Every operation -/

open Locking

/-- The locks of an operation on a channel. -/
def StoreOp.script : StoreOp → LockScript
  | .createChannel => Locking.createChannel
  | .restrictChannel .. => Locking.restrictChannel
  | .grantRole .. => Locking.grantRole
  | .revokeRole .. => Locking.revokeRole
  | .transferOwnership .. => Locking.transferOwnership
  | .setChannelVisibility _ visibility .. => Locking.setChannelVisibility visibility
  | .appendRemotePolicyHistory _ => Locking.appendRemotePolicyHistory
  | .rebuildPolicyCache => Locking.rebuildPolicyCache
  | .savePolicyConflict _ => Locking.savePolicyConflict
  | .resolvePolicyConflict _ => Locking.resolvePolicyConflict
  | .tombstoneMessage .. => Locking.tombstoneMessage
  | .restoreMessage .. => Locking.restoreMessage
  | .appendRemoteModerationHistory _ => Locking.appendRemoteModerationHistory
  | .saveModerationConflict _ => Locking.saveModerationConflict
  | .resolveModerationConflict _ => Locking.resolveModerationConflict
  | .appendMessage _ => Locking.appendMessage
  | .chunkSummaries | .chunkIds _ | .readMessageById _ => Locking.readIndexed
  | .readChannelTail n includeTombstoned => Locking.readChannelTail n includeTombstoned
  | .generateChannelKey _ => Locking.generateChannelKey
  | .acceptKeyOffers .. => Locking.acceptKeyOffers
  | .signMessageForChannel .. => Locking.signMessageForChannel

/-- The calls of the store and of the keyring: the operations, and those
that only read. -/
inductive StoreCall
  | operation (op : StoreOp)
  | readChannelPolicy
  | authorizeRead
  | readPolicyHistory
  | listPolicyConflicts
  | readModerationHistory
  | validateModerationHistory
  | moderationState
  | listModerationConflicts
  | messageIds
  | readVerifiedLog
  | readChannelTailDecrypted (n : ℕ) (includeTombstoned : Bool) (length : ℕ)
  | loadKeys
  | currentChannelKey
  | encryptMessage
  | decryptEnvelope
  | makeKeyOffers

/-- The locks of a call. -/
def StoreCall.script : StoreCall → LockScript
  | .operation op => op.script
  | .readChannelPolicy => Locking.readChannelPolicy
  | .authorizeRead => Locking.authorizeRead
  | .readPolicyHistory => Locking.readPolicyHistory
  | .listPolicyConflicts => Locking.listPolicyConflicts
  | .readModerationHistory => Locking.readModerationHistory
  | .validateModerationHistory => Locking.validateModerationHistory
  | .moderationState => Locking.moderationState
  | .listModerationConflicts => Locking.listModerationConflicts
  | .messageIds => Locking.readIndexed
  | .readVerifiedLog => Locking.readVerifiedLog
  | .readChannelTailDecrypted n includeTombstoned length =>
    Locking.readChannelTailDecrypted n includeTombstoned length
  | .loadKeys => Locking.loadKeys
  | .currentChannelKey => Locking.currentChannelKey
  | .encryptMessage => Locking.encryptMessage
  | .decryptEnvelope => Locking.decryptEnvelope
  | .makeKeyOffers => Locking.makeKeyOffers

/-- A locked file of one channel. -/
abbrev ChannelLock := String × LockFile

/-- The lock calls of a task that makes calls on channels one after the
other, and goes on after one that failed, or not. -/
inductive LockCalls : List (ChannelRef × StoreCall) → List (Locks.Call ChannelLock) → Prop
  | nil {work : List (ChannelRef × StoreCall)} : LockCalls work []
  | cons {chan : ChannelRef} {call : StoreCall} {work : List (ChannelRef × StoreCall)} {ok : Bool}
      {calls more : List (Locks.Call ChannelLock)} :
      ((call.script.map (Prod.mk chan.fullName)).Runs ok calls) → LockCalls work more →
      LockCalls ((chan, call) :: work) (calls ++ more)

/-- Tasks that hold nothing yet. -/
def startTasks {ι : Type} (calls : ι → List (Locks.Call ChannelLock)) : ι → Locks.Task ChannelLock :=
  fun i => ⟨[], calls i⟩

end Embernet
