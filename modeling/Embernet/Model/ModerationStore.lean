import Embernet.Model.PolicyStore
/-!
# Moderation store — the moderation files of a channel

`store.rs`. Every operation reads the policy history afresh and judges the
moderation history by it. `moderation.json` is written and never read.
-/

set_option autoImplicit false

namespace Embernet

open Primitives

variable [Primitives]

/-! ## Reading -/

/-- `derive_moderation`, and `validate_moderation_history`. -/
def deriveModeration (chan : ChannelRef) (events : List ModerationEvent) :
    ReadM ModerationState := do
  let policyHistory ← readPolicyHistory chan
  (deriveModerationUnder chan policyHistory events : Except Error _)

/-- `read_moderation_history_unlocked`. -/
def readModerationLog (chan : ChannelRef) (dir : Dir) : ReadM (List ModerationEvent) :=
  match dir.moderationLog with
  | none => pure []
  | some bytes => do
    let events ←
      (parseHistory readModerationEvent "moderation.ndjson" "moderation" bytes : Except Error _)
    let _ ← deriveModeration chan events
    pure events

/-- `read_moderation_history`. -/
def readModerationHistory (chan : ChannelRef) : ReadM (List ModerationEvent) := do
  let dir ← openDir chan.fullName
  readModerationLog chan dir

/-- `moderation_state`. -/
def moderationState (chan : ChannelRef) : ReadM ModerationState := do
  let events ← readModerationHistory chan
  deriveModeration chan events

/-! ## Appending -/

/-- Appends records to the moderation history and writes the cache. -/
def appendModerationRecords (events : List ModerationEvent) (state : ModerationState) (dir : Dir) :
    Dir :=
  { dir with
    moderationLog := if events.isEmpty then dir.moderationLog
      else some (dir.moderationLog.getD [] ++ moderationCodec.records events)
    moderationJson := some state }

/-- `append_moderation_action`, at the clock `now`. -/
def appendModerationAction (chan : ChannelRef) (signer : KeypairFile) (now : Int64)
    (action : ModerationAction) : StoreM ModerationState := do
  let (dir, _) ← openLog chan
  let events ← readModerationLog chan dir
  let policyHistory ← readPolicyHistory chan
  let event ← (nextModerationEvent chan policyHistory events signer now action : Except Error _)
  -- derived whole before a byte is written
  let state ← deriveModeration chan (events ++ [event])
  modifyDir chan.fullName (appendModerationRecords [event] state)
  pure state

/-- `append_remote_moderation_history`. -/
def appendRemoteModerationHistory (chan : ChannelRef) (remote : List ModerationEvent) :
    StoreM ModerationState := do
  let (dir, _) ← openLog chan
  let current ← readModerationLog chan dir
  -- under the policy history that is there, whoever sent the events
  let state ← deriveModeration chan remote
  bailIf (idPrefix ModerationEvent.id current remote = false)
    ["remote moderation history does not extend the local history"]
  modifyDir chan.fullName (appendModerationRecords (remote.drop current.length) state)
  pure state

/-! ## Forks -/

/-- The directory of a channel's saved moderation forks. -/
def moderationConflictDir (chan : ChannelRef) : String := chan.fullName ++ "/moderation-conflicts"

/-- `save_moderation_conflict`. -/
def saveModerationConflict (chan : ChannelRef) (events : List ModerationEvent) :
    StoreM String := do
  let _ ← deriveModeration chan events
  let last ← orBail ["cannot save an empty moderation conflict"] events.getLast?
  ensureDir (moderationConflictDir chan)
  modifyDir (moderationConflictDir chan) fun dir =>
    { dir with saved := dir.saved.insert last.id (moderationCodec.records events) }
  pure last.id

omit [Primitives] in
/-- `list_moderation_conflicts`. -/
def listModerationConflicts (chan : ChannelRef) : ReadM (List String) :=
  listSaved (moderationConflictDir chan)

/-- `resolve_moderation_conflict`. -/
def resolveModerationConflict (chan : ChannelRef) (head : String) : StoreM ModerationState := do
  (context "moderation head must be a 32-byte hex ID" (validatePublicKey head) :
    Except Error Unit)
  let events ← readSaved readModerationEvent (moderationConflictDir chan) head
  bailIf (events.getLast?.map ModerationEvent.id ≠ some head)
    ["saved moderation conflict does not match requested head"]
  let state ← deriveModeration chan events
  let (dir, _) ← openLog chan
  let current ← readModerationLog chan dir
  if current ≠ [] ∧
      current.getLast?.map ModerationEvent.id ≠ events.getLast?.map ModerationEvent.id then
    let _ ← saveModerationConflict chan current
  modifyDir chan.fullName fun dir =>
    { dir with
      moderationLog := some (moderationCodec.records events)
      moderationJson := some state }
  pure state

end Embernet
