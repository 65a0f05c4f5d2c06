import Embernet.Lib.Blocks
import Embernet.Model.Proto
/-!
# Log — the message file of a channel, and its index

`store.rs`. A channel's messages are the records of `log.ndjson`, one
envelope a line; `index.redb` is rebuilt from it whenever its recorded
length or schema is out of date. The index says where each id's record
is, and keeps the ids in 256 buckets by their first byte, each packed and
hashed for synchronization.
-/

set_option autoImplicit false

namespace Embernet

open Primitives

variable [Primitives]

/-! ## Scanning -/

/-- A record of the log, with the bytes it stands in. -/
structure ScannedEnvelope where
  envelope : Envelope
  offset : ℕ
  length : ℕ
  deriving DecidableEq

/-- `u8::is_ascii_whitespace`. -/
def isAsciiWhitespace (b : UInt8) : Bool :=
  b == 0x20 || b == 0x09 || b == 0x0a || b == 0x0c || b == 0x0d

/-- The loop of `scan_verified_file`, from line `n` at `offset`. -/
def scanLines (n offset : ℕ) : List Bytes → Except Error (List ScannedEnvelope)
  | [] => pure []
  | line :: lines => do
    bailIf (line.getLast? ≠ some 0x0a)
      [s!"corrupt log log.ndjson at line {n}: truncated record (missing newline)"]
    let text := Ndjson.chomp line
    if text.all isAsciiWhitespace then
      scanLines (n + 1) (offset + line.length) lines
    else do
      let env ← orBail [s!"corrupt log log.ndjson at line {n}: invalid envelope JSON"]
        (readEnvelope text)
      context s!"corrupt log log.ndjson at line {n}: envelope {env.id} failed verification"
        env.verify
      let rest ← scanLines (n + 1) (offset + line.length) lines
      pure (⟨env, offset, line.length⟩ :: rest)

/-- `scan_verified_file`. -/
def scanVerifiedFile (log : Bytes) : Except Error (List ScannedEnvelope) :=
  scanLines 1 0 (Ndjson.splitLines log)

/-! ## The index -/

/-- The tables of `index.redb`. A location is the offset and the length
of a record. -/
structure Index where
  messages : Std.ExtTreeMap String (ℕ × ℕ) := ∅
  chunkMembers : Std.ExtTreeMap ℕ Bytes := ∅
  chunkHashes : Std.ExtTreeMap ℕ Bytes := ∅
  logLen : Option ℕ := none
  messageCount : Option ℕ := none
  schema : Option ℕ := none

/-- `INDEX_SCHEMA_VERSION`. -/
def indexSchemaVersion : ℕ := 2

/-- `MERKLE_BUCKET_COUNT`: one for each first byte of an id. -/
def merkleBucketCount : ℕ := 256

/-- The bucket of an id. -/
def bucketOf (id : Bytes) : ℕ := (id.headD 0).toNat

/-- The ids of one bucket, in the order they are given. -/
def bucket (ids : List Bytes) (i : ℕ) : List Bytes := ids.filter fun id => bucketOf id == i

/-- A table with an entry for each bucket that is not empty. -/
def chunkTable (ids : List Bytes) (f : List Bytes → Bytes) : Std.ExtTreeMap ℕ Bytes :=
  (List.range merkleBucketCount).foldl (fun table i =>
    if (bucket ids i).isEmpty then table else table.insert i (f (bucket ids i))) ∅

/-- Where each record is; of two with one id, the later. -/
def messageTable (scanned : List ScannedEnvelope) : Std.ExtTreeMap String (ℕ × ℕ) :=
  scanned.foldl (fun table item => table.insert item.envelope.id (item.offset, item.length)) ∅

/-- `rebuild_index`, of what the scan found. -/
def rebuildIndex (scanned : List ScannedEnvelope) (logLen : ℕ) : Except Error Index := do
  let ids ← scanned.mapM fun item => orBail ["hex::decode"] (hexDecode item.envelope.id)
  pure {
    messages := messageTable scanned
    chunkMembers := chunkTable ids Blocks.pack
    chunkHashes := chunkTable ids fun ids => blake3 (Blocks.pack ids)
    logLen := some logLen
    messageCount := some scanned.length
    schema := some indexSchemaVersion }

/-- `ensure_index`: the index there is, if it is current, and one rebuilt
from the log otherwise. -/
def ensureIndex (log : Bytes) (db : Index) : Except Error Index :=
  -- of the log only the length is compared
  if db.logLen = some log.length ∧ db.schema = some indexSchemaVersion then pure db
  else do
    let scanned ← scanVerifiedFile log
    rebuildIndex scanned log.length

/-- `index_contains`. -/
def indexContains (db : Index) (id : String) : Bool := db.messages.contains id

/-- `index_insert`. -/
def indexInsert (db : Index) (id : String) (offset length logLen : ℕ) : Except Error Index := do
  let idBytes ← orBail ["hex::decode"] (hexDecode id)
  bailIf (idBytes.length ≠ 32) ["invalid message id length in index"]
  let i := bucketOf idBytes
  let members := Blocks.pack (Blocks.chunksExact 32 (db.chunkMembers.getD i [] ++ idBytes))
  pure {
    messages := db.messages.insert id (offset, length)
    chunkMembers := db.chunkMembers.insert i members
    chunkHashes := db.chunkHashes.insert i (blake3 members)
    logLen := some logLen
    messageCount := some (db.messageCount.getD 0 + 1)
    schema := some indexSchemaVersion }

/-! ## Reading through the index -/

/-- The reads of `chunk_summaries`. -/
def indexSummaries (db : Index) : Except Error (List ChunkSummary) :=
  db.chunkMembers.toList.mapM fun (index, members) => do
    let hash ← orBail ["chunk hash missing from index"] db.chunkHashes[index]?
    pure { index, count := members.length / 32, hash := hexEncode hash }

/-- The reads of `chunk_ids`. -/
def indexChunkIds (db : Index) (chunkIndex : ℕ) : Except Error (List String) :=
  match db.chunkMembers[chunkIndex]? with
  | none => pure []
  | some members => do
    bailIf (members.length % 32 ≠ 0) [s!"invalid chunk {chunkIndex} membership length"]
    pure ((Blocks.chunksExact 32 members).map hexEncode)

/-- `read_indexed_envelope`. -/
def readIndexedEnvelope (log : Bytes) (chan : ChannelRef) (id : String) (offset length : ℕ) :
    Except Error Envelope := do
  let record := (log.drop offset).take length
  bailIf (record.length ≠ length) ["failed to fill whole buffer"]
  bailIf (record.getLast? ≠ some 0x0a) [s!"corrupt indexed record {id}: missing newline"]
  -- what stands there is verified again, whatever the index says
  let env ← orBail [s!"corrupt indexed record {id}: invalid JSON"]
    (readEnvelope record.dropLast)
  bailIf (env.id ≠ id ∨ env.channel ≠ chan.fullName)
    [s!"corrupt indexed record {id}: identity or channel mismatch"]
  context s!"corrupt indexed record {id}: failed verification" env.verify
  pure env

end Embernet
