import Embernet.Model.Keyring
/-!
# Policy store — the policy files of a channel

`store.rs`. The signed history `policy.ndjson` is what counts where it is
there; `policy.json` is read where it is not, and written by every
operation that changes the history.
-/

set_option autoImplicit false

namespace Embernet

open Primitives

variable [Primitives]

/-! ## Reading -/

/-- The events of a history file, each line one. A line that is not UTF-8
fails to be read, and one that is fails to be parsed. -/
def parseHistory {α : Type} (read : Bytes → Option α) (file kind : String) (bytes : Bytes) :
    Except Error (List α) :=
  match Ndjson.parse read bytes with
  | .ok events => pure events
  | .error (n, line) =>
    if (ByteArray.mk line.toArray).validateUTF8 then
      bail s!"invalid {kind} event {file} line {n}"
    else bail s!"read {file} line {n}"

/-- `read_policy_history_unlocked`. -/
def readPolicyLog (chan : ChannelRef) (dir : Dir) : Except Error (List PolicyEvent) :=
  match dir.policyLog with
  | none => pure []
  | some bytes => do
    let events ← parseHistory readPolicyEvent "policy.ndjson" "policy" bytes
    let _ ← derivePolicy chan events
    pure events

/-- `read_policy_history`. -/
def readPolicyHistory (chan : ChannelRef) : ReadM (List PolicyEvent) := do
  let dir ← openDir chan.fullName
  readPolicyLog chan dir

omit [Primitives] in
/-- The checks of `read_policy_cache` on what the file holds. -/
def checkPolicyCache (policy : ChannelPolicy) : Except Error ChannelPolicy := do
  bailIf (policy.version ≠ 1) [s!"unsupported channel policy version {policy.version}"]
  bailIf (policy.mode = .restricted ∧ policy.owner = none)
    ["restricted channel policy has no owner"]
  (policy.owner.toList ++ policy.moderators ++ policy.writers ++ policy.readers).forM
    validatePublicKey
  bailIf (policy.visibility = .private_ ∧ policy.mode ≠ .restricted)
    ["private channel policy must be restricted"]
  pure policy

omit [Primitives] in
/-- `read_policy_cache`. -/
def readPolicyCache (dir : Dir) : Except Error ChannelPolicy :=
  match dir.policyJson with
  | .absent => pure .default
  | .malformed => bail "invalid channel policy policy.json"
  | .value policy => checkPolicyCache policy

/-- `read_channel_policy`, in the channel's directory. -/
def readDirPolicy (chan : ChannelRef) (dir : Dir) : Except Error ChannelPolicy :=
  -- where there is a history, the file `policy.json` is not looked at
  if dir.policyLog.isSome then do
    let events ← readPolicyLog chan dir
    derivePolicy chan events
  else readPolicyCache dir

/-- `read_channel_policy`. A channel that is not there has the default
policy. -/
def readChannelPolicy (chan : ChannelRef) : ReadM ChannelPolicy := fun d =>
  match d.channels[chan.fullName]? with
  | none => pure .default
  | some dir => readDirPolicy chan dir

/-- `authorize_read`. -/
def authorizeRead (chan : ChannelRef) (publicKey : String) : ReadM Unit := do
  let policy ← readChannelPolicy chan
  bailIf (policyAllowsRead policy publicKey = false)
    [s!"identity {publicKey} is not allowed to read private channel {chan.fullName}"]

/-- `authorize_append`. -/
def authorizeAppend (chan : ChannelRef) (author : String) : ReadM Unit := do
  let policy ← readChannelPolicy chan
  bailIf (policyAllowsAppend policy author = false)
    [s!"author {author} is not allowed to write channel {chan.fullName}"]

/-! ## What reading depends on -/

section Reading

variable {chan : ChannelRef} {d : Datadir} {dir : Dir}

theorem readDirPolicy_congr {dir' : Dir} (hlog : dir'.policyLog = dir.policyLog)
    (hjson : dir'.policyJson = dir.policyJson) : readDirPolicy chan dir' = readDirPolicy chan dir := by
  simp only [readDirPolicy, readPolicyLog, readPolicyCache, hlog, hjson]

theorem readChannelPolicy_of_getElem? (h : d.channels[chan.fullName]? = some dir) :
    readChannelPolicy chan d = readDirPolicy chan dir := by
  simp only [readChannelPolicy, h]

theorem readPolicyHistory_of_getElem? (h : d.channels[chan.fullName]? = some dir) :
    readPolicyHistory chan d = readPolicyLog chan dir := by
  rw [readPolicyHistory, Query.bind_apply, openDir_ok.2 h]
  rfl

omit [Primitives] in
theorem parseHistory_ok {α : Type} {read : Bytes → Option α} {file kind : String} {bytes : Bytes}
    {events : List α} :
    parseHistory read file kind bytes = .ok events ↔ Ndjson.parse read bytes = .ok events := by
  rw [parseHistory]
  rcases Ndjson.parse read bytes with ⟨n, line⟩ | events'
  · dsimp only
    split <;> simp [bail, throw, throwThe, MonadExceptOf.throw]
  · simp

/-- The policy history of a directory, as its file parses. -/
theorem readPolicyLog_ok {P : List PolicyEvent} :
    readPolicyLog chan dir = .ok P ↔
      Ndjson.parse readPolicyEvent (dir.policyLog.getD []) = .ok P ∧
        ∃ policy, derivePolicy chan P = .ok policy := by
  rw [readPolicyLog]
  cases dir.policyLog with
  | none =>
    constructor
    · rintro ⟨⟩
      exact ⟨rfl, _, derivePolicy_nil⟩
    · rintro ⟨h, -⟩
      cases h
      rfl
  | some bytes =>
    simp only [bind_eq_ok, parseHistory_ok, pure_eq_ok, Option.getD_some]
    constructor
    · rintro ⟨_, hparse, policy, hpolicy, rfl⟩
      exact ⟨hparse, policy, hpolicy⟩
    · rintro ⟨hparse, policy, hpolicy⟩
      exact ⟨P, hparse, policy, hpolicy, rfl⟩

end Reading

/-! ## Appending -/

/-- The events `append_policy_action` adds to a history: the action's,
and before it, where the history is empty and a restricted policy is
cached, the owner's adoption of that policy. -/
def newPolicyEvents (chan : ChannelRef) (signer : KeypairFile) (now now' : Int64)
    (action : PolicyAction) (events : List PolicyEvent) (cached : ChannelPolicy) :
    Except Error (List PolicyEvent) :=
  if events.isEmpty ∧ cached.mode = .restricted then do
    -- a policy from before the histories is adopted before anything else
    bailIf (cached.owner ≠ some signer.publicKey)
      ["only the legacy policy owner can adopt it into signed history"]
    let adoption ← signPolicyEvent chan signer now none (.adopt cached)
    let event ← signPolicyEvent chan signer now' (some adoption.id) action
    pure [adoption, event]
  else do
    let event ← signPolicyEvent chan signer now (events.getLast?.map PolicyEvent.id) action
    pure [event]

/-- Appends records to the policy history and writes the policy file. -/
def appendPolicyRecords (events : List PolicyEvent) (policy : ChannelPolicy) (dir : Dir) : Dir :=
  { dir with
    policyLog := if events.isEmpty then dir.policyLog
      else some (dir.policyLog.getD [] ++ policyCodec.records events)
    policyJson := .value policy }

/-- `append_policy_action`, at the clock readings `now` and `now'`. -/
def appendPolicyAction (chan : ChannelRef) (signer : KeypairFile) (now now' : Int64)
    (action : PolicyAction) : StoreM ChannelPolicy := do
  let (dir, _) ← openLog chan
  let events ← readPolicyLog chan dir
  let cached ← if events.isEmpty then readPolicyCache dir else derivePolicy chan events
  let added ← newPolicyEvents chan signer now now' action events cached
  -- derived whole before a byte is written
  let policy ← derivePolicy chan (events ++ added)
  modifyDir chan.fullName (appendPolicyRecords added policy)
  pure policy

/-- Whether one history begins another: event by event, the ids are the
same. -/
def idPrefix {α : Type} (id : α → String) (short long : List α) : Bool :=
  decide (short.length ≤ long.length) && (short.zip long).all fun (a, b) => id a == id b

/-- `append_remote_policy_history`. -/
def appendRemotePolicyHistory (chan : ChannelRef) (remote : List PolicyEvent) :
    StoreM ChannelPolicy := do
  let (dir, _) ← openLog chan
  let current ← readPolicyLog chan dir
  let policy ← derivePolicy chan remote
  bailIf (idPrefix PolicyEvent.id current remote = false)
    ["remote policy history does not extend the local history"]
  -- a history that is empty begins every other
  modifyDir chan.fullName (appendPolicyRecords (remote.drop current.length) policy)
  pure policy

/-- `rebuild_policy_cache`. -/
def rebuildPolicyCache (chan : ChannelRef) : StoreM ChannelPolicy := do
  let dir ← openDir chan.fullName
  let events ← readPolicyLog chan dir
  let policy ← derivePolicy chan events
  -- where there is no history this is the default policy
  modifyDir chan.fullName fun dir => { dir with policyJson := .value policy }
  pure policy

/-! ## Forks -/

/-- The directory of a channel's saved policy forks. -/
def policyConflictDir (chan : ChannelRef) : String := chan.fullName ++ "/policy-conflicts"

/-- `save_policy_conflict`. -/
def savePolicyConflict (chan : ChannelRef) (events : List PolicyEvent) : StoreM String := do
  let _ ← (derivePolicy chan events : Except Error _)
  let last ← orBail ["cannot save an empty policy conflict"] events.getLast?
  ensureDir (policyConflictDir chan)
  modifyDir (policyConflictDir chan) fun dir =>
    { dir with saved := dir.saved.insert last.id (policyCodec.records events) }
  pure last.id

omit [Primitives] in
/-- `list_policy_conflicts`. -/
def listPolicyConflicts (chan : ChannelRef) : ReadM (List String) :=
  listSaved (policyConflictDir chan)

/-- Reads a saved history back. -/
def readSaved {α : Type} (read : Bytes → Option α) (path head : String) : ReadM (List α) := fun d => do
  let bytes ← orBail [s!"read {head}.ndjson"] (d.channels[path]?.bind fun dir => dir.saved[head]?)
  match Ndjson.parse read bytes with
  | .ok events => pure events
  | .error _ => bail "serde_json"

omit [Primitives] in
theorem readSaved_ok {α : Type} {read : Bytes → Option α} {path head : String} {d : Datadir}
    {events : List α} :
    readSaved read path head d = .ok events ↔
      ∃ bytes, (d.channels[path]?.bind fun dir => dir.saved[head]?) = some bytes ∧
        Ndjson.parse read bytes = .ok events := by
  simp only [readSaved, bind_eq_ok, orBail_eq_ok]
  refine exists_congr fun bytes => and_congr_right fun _ => ?_
  cases Ndjson.parse read bytes with
  | ok events' => simp
  | error e => simp [bail, throw, throwThe, MonadExceptOf.throw]

/-- `resolve_policy_conflict`. -/
def resolvePolicyConflict (chan : ChannelRef) (head : String) : StoreM ChannelPolicy := do
  (context "policy head must be a 32-byte hex ID" (validatePublicKey head) : Except Error Unit)
  let events ← readSaved readPolicyEvent (policyConflictDir chan) head
  bailIf (events.getLast?.map PolicyEvent.id ≠ some head)
    ["saved policy conflict does not match requested head"]
  let policy ← (derivePolicy chan events : Except Error _)
  let (dir, _) ← openLog chan
  let current ← (readPolicyLog chan dir : Except Error _)
  -- what was there becomes a fork; no moderation is looked at
  if current ≠ [] ∧ current.getLast?.map PolicyEvent.id ≠ events.getLast?.map PolicyEvent.id then
    let _ ← savePolicyConflict chan current
  modifyDir chan.fullName fun dir =>
    { dir with policyLog := some (policyCodec.records events), policyJson := .value policy }
  pure policy

/-! ## The operations that users call -/

/-- `restrict_channel`. -/
def restrictChannel (chan : ChannelRef) (signer : KeypairFile) (now now' : Int64) :
    StoreM ChannelPolicy :=
  appendPolicyAction chan signer now now' (.restrict signer.publicKey)

/-- `grant_role`. -/
def grantRole (chan : ChannelRef) (signer : KeypairFile) (role : PolicyRole) (publicKey : String)
    (now now' : Int64) : StoreM ChannelPolicy :=
  appendPolicyAction chan signer now now' (.grant role publicKey)

/-- What `revoke_role` does before it generates a key. -/
def checkRevoke (chan : ChannelRef) (signer : KeypairFile) (role : PolicyRole)
    (publicKey : String) : ReadM ChannelPolicy := do
  validatePublicKey publicKey
  let current ← readChannelPolicy chan
  authorizePolicyChange current signer.publicKey role
  pure current

/-- `revoke_role`. -/
def revokeRole (chan : ChannelRef) (signer : KeypairFile) (role : PolicyRole) (publicKey : String)
    (raw : Bytes) (now now' : Int64) : StoreM ChannelPolicy := do
  let current ← checkRevoke chan signer role publicKey
  if current.visibility = .private_ then
    let _ ← generateChannelKey chan.fullName raw
  -- the key is there before the event: until then the old policy holds
  appendPolicyAction chan signer now now' (.revoke role publicKey)

/-- `transfer_ownership`. -/
def transferOwnership (chan : ChannelRef) (signer : KeypairFile) (newOwner : String) (raw : Bytes)
    (now now' : Int64) : StoreM ChannelPolicy := do
  (validatePublicKey newOwner : Except Error Unit)
  let current ← readChannelPolicy chan
  bailIf (current.owner ≠ some signer.publicKey) ["only the owner can transfer ownership"]
  if current.visibility = .private_ then
    let _ ← generateChannelKey chan.fullName raw
  appendPolicyAction chan signer now now' (.transferOwner newOwner)

/-- `set_channel_visibility`. -/
def setChannelVisibility (chan : ChannelRef) (signer : KeypairFile)
    (visibility : ChannelVisibility) (raw : Bytes) (now now' : Int64) : StoreM ChannelPolicy := do
  let current ← readChannelPolicy chan
  bailIf (current.mode ≠ .restricted)
    ["channel must be restricted before visibility can be changed"]
  bailIf (current.owner ≠ some signer.publicKey) ["only the owner can change channel visibility"]
  if visibility = .private_ then
    let _ ← generateChannelKey chan.fullName raw
  appendPolicyAction chan signer now now' (.setVisibility visibility)

end Embernet
