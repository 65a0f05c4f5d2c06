import Embernet.Model.Decoding
import Embernet.Model.Frames
/-!
# Wire — the text of a frame, and what each type reads of it

`sync.rs`. The derived serialisers write the members of a record in their
order; the derived deserialisers look them up by name, and pass over the
rest. `Frame.toJson` is what a frame is written as, and `Decoded.ofJson`
what each of the types that a session tries makes of a text.
-/

set_option autoImplicit false

namespace Embernet

open Json (num str arr obj opt required defaulted asObj asStr asOptStr asStrings asArr asInt)

/-! ## Numbers -/

/-- A `u64`, which a `usize` is read as too. -/
def asU64 (value : Json) : Option ℕ := (asInt 0 (2 ^ 64 - 1) value).map Int.toNat

/-- An `Option<u64>`. -/
def asOptU64 : Json → Option (Option ℕ)
  | .null => some none
  | value => (asU64 value).map some

theorem asU64_num {n : ℕ} (h : n < 2 ^ 64) : asU64 (num n) = some n := by
  rw [asU64, Json.asInt_num (by omega) (by omega)]
  rfl

/-! ## Messages -/

/-- Unknown names are refused. -/
def MsgType.ofJson (value : Json) : Option MsgType := do
  match ← asStr value with
  | "post" => pure .post
  | "reply" => pure .reply
  | "vote" => pure .vote
  | "mod" => pure .mod
  | _ => none

/-- By `kind`; the members of the other kind are passed over. -/
def Body.ofJson (value : Json) : Option Body := do
  let fields ← asObj value
  match ← required fields "kind" asStr with
  | "Text" => do
    let text ← required fields "text" asStr
    pure (.text text)
  | "Encrypted" => do
    let keyId ← required fields "key_id" asStr
    let nonce ← required fields "nonce" asStr
    let ciphertext ← required fields "ciphertext" asStr
    pure (.encrypted keyId nonce ciphertext)
  | _ => none

/-- `title` alone may be left out. -/
def Message.ofJson (value : Json) : Option Message := do
  let fields ← asObj value
  let ts ← required fields "ts" asI64
  let type ← required fields "type" MsgType.ofJson
  let title ← defaulted fields "title" asOptStr none
  let tags ← required fields "tags" asStrings
  let refs ← required fields "refs" asStrings
  let body ← required fields "body" Body.ofJson
  pure { ts, type, title, tags, refs, body }

/-- `from_alias` alone may be left out. Nothing is verified here. -/
def Envelope.ofJson (value : Json) : Option Envelope := do
  let fields ← asObj value
  let id ← required fields "id" asStr
  let channel ← required fields "channel" asStr
  let sender ← required fields "from" asStr
  let fromAlias ← defaulted fields "from_alias" asOptStr none
  let ts ← required fields "ts" asI64
  let sig ← required fields "sig" asStr
  let msg ← required fields "msg" Message.ofJson
  pure { id, channel, sender, fromAlias, ts, sig, msg }

/-! ## Moderation events -/

/-- By `type`; a tombstone may be without a reason. -/
def ModerationAction.ofJson (value : Json) : Option ModerationAction := do
  let fields ← asObj value
  match ← required fields "type" asStr with
  | "tombstone" => do
    let target ← required fields "target" asStr
    let reason ← defaulted fields "reason" asOptStr none
    pure (.tombstone target reason)
  | "restore" => do
    let target ← required fields "target" asStr
    pure (.restore target)
  | _ => none

/-- `previous` may be left out: the first event of a history. -/
def ModerationEvent.ofJson (value : Json) : Option ModerationEvent := do
  let fields ← asObj value
  let id ← required fields "id" asStr
  let channel ← required fields "channel" asStr
  let actor ← required fields "actor" asStr
  let ts ← required fields "ts" asI64
  let previous ← defaulted fields "previous" asOptStr none
  let policyHead ← required fields "policy_head" asStr
  let action ← required fields "action" ModerationAction.ofJson
  let sig ← required fields "sig" asStr
  pure { id, channel, actor, ts, previous, policyHead, action, sig }

/-! ## Key offers and chunks -/

/-- In the order of the struct, the signature last. -/
def KeyOffer.toJson (o : KeyOffer) : Json :=
  obj [("channel", str o.channel), ("key_id", str o.keyId), ("sender", str o.sender),
    ("recipient", str o.recipient), ("nonce", str o.nonce), ("ciphertext", str o.ciphertext),
    ("sig", str o.sig)]

/-- Every member must be there. -/
def KeyOffer.ofJson (value : Json) : Option KeyOffer := do
  let fields ← asObj value
  let channel ← required fields "channel" asStr
  let keyId ← required fields "key_id" asStr
  let sender ← required fields "sender" asStr
  let recipient ← required fields "recipient" asStr
  let nonce ← required fields "nonce" asStr
  let ciphertext ← required fields "ciphertext" asStr
  let sig ← required fields "sig" asStr
  pure { channel, keyId, sender, recipient, nonce, ciphertext, sig }

/-- The hash is any string: that it is one is checked later. -/
def ChunkSummary.ofJson (value : Json) : Option ChunkSummary := do
  let fields ← asObj value
  let index ← required fields "index" asU64
  let count ← required fields "count" asU64
  let hash ← required fields "hash" asStr
  pure { index, count, hash }

/-- A bucket and the ids it lists. -/
def ChunkIds.toJson (c : ChunkIds) : Json := obj [("index", num c.index), ("ids", strings c.ids)]

/-- Neither the bucket nor the ids are looked at. -/
def ChunkIds.ofJson (value : Json) : Option ChunkIds := do
  let fields ← asObj value
  let index ← required fields "index" asU64
  let ids ← required fields "ids" asStrings
  pure { index, ids }

/-! ## Frames -/

/-- `msg_type` is written as `type`, here and in every frame below. -/
def AuthChallenge.toJson (m : AuthChallenge) : Json :=
  obj [("type", str m.msgType), ("nonce", str m.nonce), ("responder", str m.responder),
    ("expires", timestamp m.expires), ("signature", str m.signature)]

/-- The type may be left out. -/
def AuthChallenge.ofJson (value : Json) : Option AuthChallenge := do
  let fields ← asObj value
  let msgType ← defaulted fields "type" asStr ""
  let nonce ← required fields "nonce" asStr
  let responder ← required fields "responder" asStr
  let expires ← required fields "expires" asI64
  let signature ← required fields "signature" asStr
  pure { msgType, nonce, responder, expires, signature }

/-- The histories are read event by event, and one that is no event refuses
the packet. -/
def StatusMessage.ofJson (value : Json) : Option StatusMessage := do
  let fields ← asObj value
  let msgType ← required fields "type" asStr
  let version ← required fields "version" asU32
  let channel ← required fields "channel" asStr
  let requester ← required fields "requester" asStr
  let authTs ← required fields "auth_ts" asI64
  let authSig ← required fields "auth_sig" asStr
  let policyEvents ← required fields "policy_events" (asArr PolicyEvent.ofJson)
  let moderationEvents ← required fields "moderation_events" (asArr ModerationEvent.ofJson)
  let chunks ← required fields "chunks" (asArr ChunkSummary.ofJson)
  pure { msgType, version := version.toNat, channel, requester, authTs, authSig, policyEvents,
         moderationEvents, chunks }

/-- With the events of the history in full. -/
def PolicySync.toJson (m : PolicySync) : Json :=
  obj [("type", str m.msgType), ("status", str m.status),
    ("events", arr (m.events.map PolicyEvent.toJson))]

/-- Any status is taken: which there are is for the session to say. -/
def PolicySync.ofJson (value : Json) : Option PolicySync := do
  let fields ← asObj value
  let msgType ← required fields "type" asStr
  let status ← required fields "status" asStr
  let events ← required fields "events" (asArr PolicyEvent.ofJson)
  pure { msgType, status, events }

/-- As of the policy. -/
def ModerationSync.toJson (m : ModerationSync) : Json :=
  obj [("type", str m.msgType), ("status", str m.status),
    ("events", arr (m.events.map ModerationEvent.toJson))]

/-- As of the policy. -/
def ModerationSync.ofJson (value : Json) : Option ModerationSync := do
  let fields ← asObj value
  let msgType ← required fields "type" asStr
  let status ← required fields "status" asStr
  let events ← required fields "events" (asArr ModerationEvent.ofJson)
  pure { msgType, status, events }

/-- The offers, with the key of who makes them. -/
def KeySync.toJson (m : KeySync) : Json :=
  obj [("type", str m.msgType), ("identity", str m.identity),
    ("offers", arr (m.offers.map KeyOffer.toJson))]

/-- Offers are read as records only; each is verified where it is accepted. -/
def KeySync.ofJson (value : Json) : Option KeySync := do
  let fields ← asObj value
  let msgType ← required fields "type" asStr
  let identity ← required fields "identity" asStr
  let offers ← required fields "offers" (asArr KeyOffer.ofJson)
  pure { msgType, identity, offers }

/-- What the responder lists, and the buckets it wants listed. -/
def ChunkDiff.toJson (m : ChunkDiff) : Json :=
  obj [("type", str m.msgType), ("chunks", arr (m.chunks.map ChunkIds.toJson)),
    ("want_chunks", arr (m.wantChunks.map fun index : ℕ => num index))]

/-- A text of this type reads as a `ChunkBatch` too. -/
def ChunkDiff.ofJson (value : Json) : Option ChunkDiff := do
  let fields ← asObj value
  let msgType ← required fields "type" asStr
  let chunks ← required fields "chunks" (asArr ChunkIds.ofJson)
  let wantChunks ← required fields "want_chunks" (asArr asU64)
  pure { msgType, chunks, wantChunks }

/-- What the initiator lists of the buckets it was asked for. -/
def ChunkBatch.toJson (m : ChunkBatch) : Json :=
  obj [("type", str m.msgType), ("chunks", arr (m.chunks.map ChunkIds.toJson))]

/-- As its type says; `want_chunks` is passed over. -/
def ChunkBatch.ofJson (value : Json) : Option ChunkBatch := do
  let fields ← asObj value
  let msgType ← required fields "type" asStr
  let chunks ← required fields "chunks" (asArr ChunkIds.ofJson)
  pure { msgType, chunks }

/-- The ids of the envelopes that are missing. -/
def WantMessage.toJson (m : WantMessage) : Json :=
  obj [("type", str m.msgType), ("ids", strings m.ids)]

/-- The ids are any strings. -/
def WantMessage.ofJson (value : Json) : Option WantMessage := do
  let fields ← asObj value
  let msgType ← required fields "type" asStr
  let ids ← required fields "ids" asStrings
  pure { msgType, ids }

/-- A member that is left out where there is no value. -/
def unlessNone {α : Type} (name : String) (encode : α → Json) (value : Option α) :
    List (String × Json) :=
  (value.map fun a => (name, encode a)).toList

/-- The numbers and the error are left out where there are none. -/
def SyncResponse.toJson (m : SyncResponse) : Json :=
  obj ([("type", str m.msgType), ("status", str m.status)] ++
    unlessNone "sent" (fun n : ℕ => num n) m.sent ++
    unlessNone "received" (fun n : ℕ => num n) m.received ++ unlessNone "error" str m.error)

/-- The numbers and the error may be missing, or null. -/
def SyncResponse.ofJson (value : Json) : Option SyncResponse := do
  let fields ← asObj value
  let msgType ← required fields "type" asStr
  let status ← required fields "status" asStr
  let sent ← defaulted fields "sent" asOptU64 none
  let received ← defaulted fields "received" asOptU64 none
  let error ← defaulted fields "error" asOptStr none
  pure { msgType, status, sent, received, error }

/-- `serde_json::to_string`, of the frames that are written so. A status
packet is not: the client builds it as a value. -/
def Frame.toJson : Frame → Option Json
  | .challenge m => some m.toJson
  | .status _ => none
  | .policySync m => some m.toJson
  | .moderationSync m => some m.toJson
  | .keySync m => some m.toJson
  | .chunkDiff m => some m.toJson
  | .chunkIds m => some m.toJson
  | .want m => some m.toJson
  | .envelope m => some m.toJson
  | .response m => some m.toJson

/-- `serde_json::from_str`, once for each type that a session tries. -/
def Decoded.ofJson (value : Json) : Decoded where
  challenge := AuthChallenge.ofJson value
  status := StatusMessage.ofJson value
  policySync := PolicySync.ofJson value
  moderationSync := ModerationSync.ofJson value
  keySync := KeySync.ofJson value
  chunkDiff := ChunkDiff.ofJson value
  chunkBatch := ChunkBatch.ofJson value
  want := WantMessage.ofJson value
  envelope := Envelope.ofJson value
  response := SyncResponse.ofJson value

/-- What each type makes of a text; nothing, where it is no JSON. -/
def Decoded.ofText (parse : Bytes → Option Json) (text : Bytes) : Decoded :=
  ((parse text).map Decoded.ofJson).getD {}

/-! ## What was written reads back -/

@[simp] theorem MsgType.ofJson_toJson (t : MsgType) : ofJson t.toJson = some t := by
  cases t <;> rfl

theorem Body.ofJson_toJson (b : Body) : ofJson b.toJson = some b := by
  cases b <;> rfl

theorem Message.ofJson_toJson (m : Message) : ofJson m.toJson = some m := by
  simp only [ofJson, Option.bind_eq_bind, Option.bind_eq_some_iff]
  exact ⟨_, rfl, _, asI64_timestamp _, _, MsgType.ofJson_toJson _, _, Json.asOptStr_opt _, _,
    asStrings_strings _, _, asStrings_strings _, _, Body.ofJson_toJson _, rfl⟩

/-- **An envelope reads back.** -/
theorem Envelope.ofJson_toJson (e : Envelope) : ofJson e.toJson = some e := by
  simp only [ofJson, Option.bind_eq_bind, Option.bind_eq_some_iff]
  exact ⟨_, rfl, _, rfl, _, rfl, _, rfl, _, Json.asOptStr_opt _, _, asI64_timestamp _, _, rfl, _,
    Message.ofJson_toJson _, rfl⟩

theorem ModerationAction.ofJson_toJson (a : ModerationAction) : ofJson a.toJson = some a := by
  cases a with
  | tombstone target reason => cases reason <;> rfl
  | restore target => rfl

/-- **A moderation event reads back.** -/
theorem ModerationEvent.ofJson_toJson (e : ModerationEvent) : ofJson e.toJson = some e := by
  simp only [ofJson, Option.bind_eq_bind, Option.bind_eq_some_iff]
  exact ⟨_, rfl, _, rfl, _, rfl, _, rfl, _, asI64_timestamp _, _, Json.asOptStr_opt _, _, rfl, _,
    ModerationAction.ofJson_toJson _, _, rfl, rfl⟩

theorem KeyOffer.ofJson_toJson (o : KeyOffer) : ofJson o.toJson = some o := rfl

theorem ChunkIds.ofJson_toJson {c : ChunkIds} (h : c.index < 2 ^ 64) :
    ofJson c.toJson = some c := by
  simp only [ofJson, Option.bind_eq_bind, Option.bind_eq_some_iff]
  exact ⟨_, rfl, _, asU64_num h, _, asStrings_strings _, rfl⟩

theorem AuthChallenge.ofJson_toJson (m : AuthChallenge) : ofJson m.toJson = some m := by
  simp only [ofJson, Option.bind_eq_bind, Option.bind_eq_some_iff]
  exact ⟨_, rfl, _, rfl, _, rfl, _, rfl, _, asI64_timestamp _, _, rfl, rfl⟩

theorem PolicySync.ofJson_toJson (m : PolicySync) : ofJson m.toJson = some m := by
  simp only [ofJson, Option.bind_eq_bind, Option.bind_eq_some_iff]
  exact ⟨_, rfl, _, rfl, _, rfl, _, Json.asArr_map fun e _ => e.ofJson_toJson, rfl⟩

theorem ModerationSync.ofJson_toJson (m : ModerationSync) : ofJson m.toJson = some m := by
  simp only [ofJson, Option.bind_eq_bind, Option.bind_eq_some_iff]
  exact ⟨_, rfl, _, rfl, _, rfl, _, Json.asArr_map fun e _ => e.ofJson_toJson, rfl⟩

theorem KeySync.ofJson_toJson (m : KeySync) : ofJson m.toJson = some m := by
  simp only [ofJson, Option.bind_eq_bind, Option.bind_eq_some_iff]
  exact ⟨_, rfl, _, rfl, _, rfl, _, Json.asArr_map fun o _ => o.ofJson_toJson, rfl⟩

theorem ChunkDiff.ofJson_toJson {m : ChunkDiff} (hchunks : ∀ c ∈ m.chunks, c.index < 2 ^ 64)
    (hwant : ∀ index ∈ m.wantChunks, index < 2 ^ 64) : ofJson m.toJson = some m := by
  simp only [ofJson, Option.bind_eq_bind, Option.bind_eq_some_iff]
  exact ⟨_, rfl, _, rfl, _, Json.asArr_map fun c hc => ChunkIds.ofJson_toJson (hchunks c hc), _,
    Json.asArr_map fun index hindex => asU64_num (hwant index hindex), rfl⟩

theorem WantMessage.ofJson_toJson (m : WantMessage) : ofJson m.toJson = some m := by
  simp only [ofJson, Option.bind_eq_bind, Option.bind_eq_some_iff]
  exact ⟨_, rfl, _, rfl, _, asStrings_strings _, rfl⟩

/-- A number that is there. -/
theorem asOptU64_num {n : ℕ} (h : n < 2 ^ 64) : asOptU64 (num n) = some (some n) := by
  show (asU64 (num n)).map some = _
  rw [asU64_num h]
  rfl

theorem SyncResponse.ofJson_toJson {m : SyncResponse} (hsent : ∀ n ∈ m.sent, n < 2 ^ 64)
    (hreceived : ∀ n ∈ m.received, n < 2 ^ 64) : ofJson m.toJson = some m := by
  obtain ⟨msgType, status, sent, received, error⟩ := m
  simp only [ofJson, Option.bind_eq_bind, Option.bind_eq_some_iff]
  -- a member that was left out reads as none
  refine ⟨_, rfl, msgType, ?_, status, ?_, sent, ?_, received, ?_, error, ?_, rfl⟩
  · cases sent <;> cases received <;> cases error <;> rfl
  · cases sent <;> cases received <;> cases error <;> rfl
  · cases sent with
    | none => cases received <;> cases error <;> rfl
    | some n =>
      rw [← asOptU64_num (hsent n rfl)]
      cases received <;> cases error <;> rfl
  · cases received with
    | none => cases sent <;> cases error <;> rfl
    | some n =>
      rw [← asOptU64_num (hreceived n rfl)]
      cases sent <;> cases error <;> rfl
  · cases sent <;> cases received <;> cases error <;> rfl

end Embernet
