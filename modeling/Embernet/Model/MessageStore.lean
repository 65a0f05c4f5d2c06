import Embernet.Model.ModerationStore
/-!
# Message store — appending and reading messages

`store.rs`. A message is appended to the log once: where the index has its
id already, nothing is written and the call succeeds. Reads bring the
index up to date first.
-/

set_option autoImplicit false

namespace Embernet

open Primitives

variable [Primitives]

/-! ## Channels -/

/-- `create_channel`. -/
def createChannel (chan : ChannelRef) : StoreM Unit := do
  ensureDir chan.fullName
  modifyDir chan.fullName fun dir => { dir with log := some (dir.log.getD []) }

omit [Primitives] in
/-- `list_channels`: the directories with a log, by name. -/
def listChannels (d : Datadir) : List String :=
  (d.channels.toList.filter fun (name, dir) => dir.log.isSome && validChannel name).map (·.1)

/-- Whether `list_readable_channels` keeps a channel. -/
def listedFor (policy : ChannelPolicy) : Option String → Bool
  | some key => policyAllowsRead policy key
  | none => policy.visibility == .public_

/-- `list_readable_channels`. -/
def listReadableChannels (publicKey : Option String) : ReadM (List String) := fun d =>
  (listChannels d).filterMapM fun name => do
    let chan ← ChannelRef.parse name
    -- one policy that is not read fails the list
    let policy ← readChannelPolicy chan d
    pure (if listedFor policy publicKey then some name else none)

/-! ## Appending -/

/-- `append_message`. -/
def appendMessage (chan : ChannelRef) (env : Envelope) : StoreM String := do
  bailIf (env.channel ≠ chan.fullName)
    [s!"envelope {env.id} belongs to {env.channel}, not {chan.fullName}"]
  (context s!"refusing to append invalid envelope {env.id}" env.verify : Except Error Unit)
  let dir ← openDir chan.fullName
  let log := dir.log.getD []
  -- the file is opened, and made, before the author is authorised
  modifyDir chan.fullName fun dir => { dir with log := some log }
  authorizeAppend chan env.sender
  let db ← (ensureIndex log dir.index : Except Error _)
  modifyDir chan.fullName fun dir => { dir with index := db }
  -- of two envelopes with one id the first stays; the body is not looked at
  if indexContains db env.id then
    pure env.id
  else do
    let record := envelopeCodec.record env
    -- the record comes first: cut off here, the index is of a shorter log
    modifyDir chan.fullName fun dir => { dir with log := some (log ++ record) }
    let db ← (indexInsert db env.id log.length record.length (log.length + record.length) :
      Except Error _)
    modifyDir chan.fullName fun dir => { dir with index := db }
    pure env.id

/-! ## Reading -/

/-- A read through the index, which is brought up to date for it. -/
def readIndexed {α : Type} (chan : ChannelRef) (f : Bytes → Index → Except Error α) :
    StoreM α := do
  let (dir, log) ← openLog chan
  let db ← (ensureIndex log dir.index : Except Error _)
  modifyDir chan.fullName fun dir => { dir with index := db }
  (f log db : Except Error α)

/-- `chunk_summaries`. -/
def chunkSummaries (chan : ChannelRef) : StoreM (List ChunkSummary) :=
  readIndexed chan fun _ db => indexSummaries db

/-- `chunk_ids`. -/
def chunkIds (chan : ChannelRef) (chunkIndex : ℕ) : StoreM (List String) :=
  readIndexed chan fun _ db => indexChunkIds db chunkIndex

/-- `read_message_by_id`. -/
def readMessageById (chan : ChannelRef) (id : String) : StoreM Envelope :=
  readIndexed chan fun log db => do
    let (offset, length) ← orBail [s!"message {id} is not indexed"] db.messages[id]?
    readIndexedEnvelope log chan id offset length

/-- The loop of `read_channel_tail_with_options`: reads records until
there are `n`. -/
def readTail (log : Bytes) (chan : ChannelRef) (hidden : String → Bool) :
    ℕ → List (String × ℕ × ℕ) → Except Error (List Envelope)
  | 0, _ | _, [] => pure []
  | n + 1, (id, offset, length) :: rest =>
    -- a hidden record does not count
    if hidden id then readTail log chan hidden (n + 1) rest
    else do
      let env ← readIndexedEnvelope log chan id offset length
      let envs ← readTail log chan hidden n rest
      pure (env :: envs)

/-- The last records that are not hidden, the newest first, turned
around. -/
def tailOf (chan : ChannelRef) (hidden : String → Bool) (n : ℕ) (log : Bytes) (db : Index) :
    Except Error (List Envelope) := do
  let newestFirst := db.messages.toList.insertionSort fun a b => b.2.1 ≤ a.2.1
  let envs ← readTail log chan hidden n newestFirst
  pure envs.reverse

/-- `read_channel_tail_with_options`. -/
def readChannelTail (chan : ChannelRef) (n : ℕ) (includeTombstoned : Bool) :
    StoreM (List Envelope) := do
  if n = 0 then pure []
  else do
    let moderation ← if includeTombstoned then pure {} else moderationState chan
    readIndexed chan
      (tailOf chan (fun id => !includeTombstoned && moderation.tombstoned.contains id) n)

/-- `read_channel_tail_decrypted_with_options`. -/
def readChannelTailDecrypted (chan : ChannelRef) (n : ℕ) (includeTombstoned : Bool) :
    StoreM (List Envelope) := do
  let envelopes ← readChannelTail chan n includeTombstoned
  -- one record that does not open fails the tail
  (envelopes.mapM decryptEnvelope : ReadM _)

/-! ## Moderating and signing -/

/-- `tombstone_message`. -/
def tombstoneMessage (chan : ChannelRef) (signer : KeypairFile) (target : String)
    (reason : Option String) (now : Int64) : StoreM ModerationState := do
  -- what is hidden must be there; what is restored need not
  let _ ← readMessageById chan target
  appendModerationAction chan signer now (.tombstone target reason)

/-- `restore_message`. -/
def restoreMessage (chan : ChannelRef) (signer : KeypairFile) (target : String) (now : Int64) :
    StoreM ModerationState :=
  appendModerationAction chan signer now (.restore target)

/-- `sign_message_for_channel`. -/
def signMessageForChannel (chan : ChannelRef) (signer : KeypairFile) (message : Message)
    (raw nonce : Bytes) : StoreM Envelope := do
  let policy ← readChannelPolicy chan
  if policy.visibility = .private_ then do
    let keys ← loadKeys chan.fullName
    -- only the owner makes a first key; others get theirs from a member
    if keys.isEmpty ∧ policy.owner = some signer.publicKey then
      let _ ← generateChannelKey chan.fullName raw
    let encrypted ← encryptMessage chan.fullName nonce message
    (Envelope.sign signer chan.fullName encrypted : Except Error Envelope)
  else (Envelope.sign signer chan.fullName message : Except Error Envelope)

/-- Encrypting under the current key and signing writes nothing. -/
theorem exec_encryptAndSign (chan : ChannelRef) (signer : KeypairFile) (message : Message)
    (nonce : Bytes) (d : Datadir) :
    (Op.exec (do
      let encrypted ← encryptMessage chan.fullName nonce message
      (Envelope.sign signer chan.fullName encrypted : Except Error Envelope) :
        StoreM Envelope) d).2 = d := by
  rw [Op.exec_query_bind]
  cases encryptMessage chan.fullName nonce message d <;> rfl

end Embernet
