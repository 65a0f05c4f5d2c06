import Embernet.Model.Wire
import Embernet.Sync.Reconciliation
/-!
# The cascade — frames are never confused

A client does not know which frame a text is. It tries one type after the
other, and a type takes what has its members: a policy frame reads as a
response, and one without events as a moderation frame. What tells the
frames apart are the status of a response and the type of the others, and
`decoded_eq` says of each frame what every type makes of it.
-/

set_option autoImplicit false

namespace Embernet

open Proc Primitives

/-- The numbers of the frame are of 64 bits. -/
def Frame.Sized : Frame → Prop
  | .chunkDiff m => (∀ c ∈ m.chunks, c.index < 2 ^ 64) ∧ ∀ index ∈ m.wantChunks, index < 2 ^ 64
  | .chunkIds m => ∀ c ∈ m.chunks, c.index < 2 ^ 64
  | .response m => (∀ n ∈ m.sent, n < 2 ^ 64) ∧ ∀ n ∈ m.received, n < 2 ^ 64
  | _ => True

/-! ## What every type makes of each frame -/

/-- No action on a channel's policy is one on its messages. -/
theorem PolicyAction.ofJson_moderation (a : ModerationAction) :
    PolicyAction.ofJson a.toJson = none := by
  cases a <;> rfl

/-- A moderation event is no policy event: its action has another type. -/
theorem PolicyEvent.ofJson_moderation (e : ModerationEvent) :
    PolicyEvent.ofJson e.toJson = none := by
  refine Option.eq_none_iff_forall_ne_some.2 fun p hp => ?_
  simp only [PolicyEvent.ofJson, Option.bind_eq_bind, Option.bind_eq_some_iff] at hp
  obtain ⟨_, ⟨⟩, _, -, _, -, _, -, _, -, _, -, action, haction, -⟩ := hp
  have hread : PolicyAction.ofJson e.action.toJson = some action := haction
  rw [PolicyAction.ofJson_moderation] at hread
  cases hread

/-- A policy event names no head. -/
theorem ModerationEvent.ofJson_policy (e : PolicyEvent) :
    ModerationEvent.ofJson e.toJson = none := by
  refine Option.eq_none_iff_forall_ne_some.2 fun m hm => ?_
  simp only [ModerationEvent.ofJson, Option.bind_eq_bind, Option.bind_eq_some_iff] at hm
  obtain ⟨_, ⟨⟩, _, -, _, -, _, -, _, -, _, -, head, hhead, -⟩ := hm
  cases hhead

/-- What is written of a challenge reads as the model says. -/
theorem Decoded.ofJson_challenge (m : AuthChallenge) :
    Decoded.ofJson m.toJson = (Frame.challenge m).decoded := by
  rw [Decoded.ofJson, m.ofJson_toJson]
  rfl

/-- What is written of a request for envelopes reads as the model says. -/
theorem Decoded.ofJson_want (m : WantMessage) :
    Decoded.ofJson m.toJson = (Frame.want m).decoded := by
  rw [Decoded.ofJson, m.ofJson_toJson]
  rfl

/-- What is written of an envelope reads as the model says. -/
theorem Decoded.ofJson_envelope (m : Envelope) :
    Decoded.ofJson m.toJson = (Frame.envelope m).decoded := by
  rw [Decoded.ofJson, m.ofJson_toJson]
  rfl

/-- What is written of a key frame reads as the model says. -/
theorem Decoded.ofJson_keySync (m : KeySync) :
    Decoded.ofJson m.toJson = (Frame.keySync m).decoded := by
  rw [Decoded.ofJson, m.ofJson_toJson]
  rfl

/-- A policy frame has a status, and without events it is anyone's. -/
theorem Decoded.ofJson_policySync (m : PolicySync) :
    Decoded.ofJson m.toJson = (Frame.policySync m).decoded := by
  have hmoderation : ModerationSync.ofJson m.toJson =
      if m.events = [] then some ⟨m.msgType, m.status, []⟩ else none := by
    have hread : ModerationSync.ofJson m.toJson =
        (Json.asArr ModerationEvent.ofJson (.arr (m.events.map PolicyEvent.toJson))).bind
          fun events => some ⟨m.msgType, m.status, events⟩ := rfl
    rw [hread, Json.asArr_map_none ModerationEvent.ofJson_policy]
    split <;> rfl
  rw [Decoded.ofJson, m.ofJson_toJson, hmoderation]
  rfl

/-- A moderation frame without events also reads as a policy frame. -/
theorem Decoded.ofJson_moderationSync (m : ModerationSync) :
    Decoded.ofJson m.toJson = (Frame.moderationSync m).decoded := by
  have hpolicy : PolicySync.ofJson m.toJson =
      if m.events = [] then some ⟨m.msgType, m.status, []⟩ else none := by
    have hread : PolicySync.ofJson m.toJson =
        (Json.asArr PolicyEvent.ofJson (.arr (m.events.map ModerationEvent.toJson))).bind
          fun events => some ⟨m.msgType, m.status, events⟩ := rfl
    rw [hread, Json.asArr_map_none PolicyEvent.ofJson_moderation]
    split <;> rfl
  rw [Decoded.ofJson, m.ofJson_toJson, hpolicy]
  rfl

/-- Buckets are read where their numbers are of 64 bits. -/
theorem asArr_chunks {chunks : List ChunkIds} (h : ∀ c ∈ chunks, c.index < 2 ^ 64) :
    Json.asArr ChunkIds.ofJson (.arr (chunks.map ChunkIds.toJson)) = some chunks :=
  Json.asArr_map fun c hc => ChunkIds.ofJson_toJson (h c hc)

/-- A diff is a batch with more to it. -/
theorem Decoded.ofJson_chunkDiff {m : ChunkDiff} (h : (Frame.chunkDiff m).Sized) :
    Decoded.ofJson m.toJson = (Frame.chunkDiff m).decoded := by
  have hbatch : ChunkBatch.ofJson m.toJson =
      (Json.asArr ChunkIds.ofJson (.arr (m.chunks.map ChunkIds.toJson))).bind
        fun chunks => some ⟨m.msgType, chunks⟩ := rfl
  rw [Decoded.ofJson, ChunkDiff.ofJson_toJson h.1 h.2, hbatch, asArr_chunks h.1]
  rfl

/-- An inventory is read where its numbers are of 64 bits. -/
theorem Decoded.ofJson_chunkIds {m : ChunkBatch} (h : (Frame.chunkIds m).Sized) :
    Decoded.ofJson m.toJson = (Frame.chunkIds m).decoded := by
  have hbatch : ChunkBatch.ofJson m.toJson =
      (Json.asArr ChunkIds.ofJson (.arr (m.chunks.map ChunkIds.toJson))).bind
        fun chunks => some ⟨m.msgType, chunks⟩ := rfl
  -- the buckets read, and nothing says which of them are wanted
  have hdiff : ChunkDiff.ofJson m.toJson =
      (Json.asArr ChunkIds.ofJson (.arr (m.chunks.map ChunkIds.toJson))).bind
        fun _ => none := rfl
  rw [Decoded.ofJson, hbatch, hdiff, asArr_chunks h]
  rfl

/-- The last frame is read where its counts are of 64 bits. -/
theorem Decoded.ofJson_response {m : SyncResponse} (h : (Frame.response m).Sized) :
    Decoded.ofJson m.toJson = (Frame.response m).decoded := by
  rw [Decoded.ofJson, SyncResponse.ofJson_toJson h.1 h.2]
  obtain ⟨msgType, status, sent, received, error⟩ := m
  cases sent <;> cases received <;> cases error <;> rfl

/-- **What every type makes of every frame.** -/
theorem Frame.decoded_eq {f : Frame} {value : Json} (h : f.Sized) (hvalue : f.toJson = some value) :
    Decoded.ofJson value = f.decoded := by
  cases f with
  | status m => exact nomatch hvalue
  | challenge m => exact Option.some.inj hvalue ▸ Decoded.ofJson_challenge m
  | policySync m => exact Option.some.inj hvalue ▸ Decoded.ofJson_policySync m
  | moderationSync m => exact Option.some.inj hvalue ▸ Decoded.ofJson_moderationSync m
  | keySync m => exact Option.some.inj hvalue ▸ Decoded.ofJson_keySync m
  | chunkDiff m => exact Option.some.inj hvalue ▸ Decoded.ofJson_chunkDiff h
  | chunkIds m => exact Option.some.inj hvalue ▸ Decoded.ofJson_chunkIds h
  | want m => exact Option.some.inj hvalue ▸ Decoded.ofJson_want m
  | envelope m => exact Option.some.inj hvalue ▸ Decoded.ofJson_envelope m
  | response m => exact Option.some.inj hvalue ▸ Decoded.ofJson_response h

/-! ## What a session sends behind its challenge -/

/-- A frame that `run_sync` sends once it has a status packet. -/
def Frame.Posted : Frame → Prop
  | .policySync m => m.msgType = "policy_sync" ∧ (m.status = "update" ∨ m.status = "conflict")
  | .moderationSync m =>
    m.msgType = "moderation_sync" ∧ (m.status = "update" ∨ m.status = "conflict")
  | .keySync m => m.msgType = "key_sync"
  | .chunkDiff m => m.msgType = "chunk_diff"
  | .want m => m.msgType = "want"
  | .envelope _ => True
  | .response m => ∃ sent received, m = .complete sent received
  | .challenge _ | .status _ | .chunkIds _ => False

namespace Responder

variable [Primitives] {chan : ChannelRef} {requester : String}

/-- The histories are exchanged by frames of the protocol. -/
theorem posted_reconcile (status : StatusMessage) (nonces : ℕ → Bytes) :
    (reconcile chan status nonces).Sends Frame.Posted := by
  have htakePolicy (localPolicy remote : List PolicyEvent) :
      (takePolicy chan localPolicy remote).Sends Frame.Posted := by
    unfold takePolicy
    dsimp only
    split
    · exact fun _ => ⟨⟨rfl, .inr rfl⟩, trivial⟩
    split
    · exact fun _ => trivial
    · trivial
  have htakeModeration (remote : List ModerationEvent) :
      (takeModeration chan remote).Sends Frame.Posted := by
    refine fun _ events => ?_
    show Proc.Sends Frame.Posted (ite _ _ _)
    split
    · exact fun _ => ⟨⟨rfl, .inr rfl⟩, trivial⟩
    split
    · exact fun _ => trivial
    · trivial
  have hidentity (policy : ChannelPolicy) : (serverIdentity policy).Sends Frame.Posted := by
    unfold serverIdentity
    split
    · exact fun _ => sends_bailIf.bind fun _ => trivial
    · trivial
  have hoffers (identity : Option KeypairFile) :
      (keyOffers chan status.requester nonces identity).Sends Frame.Posted := by
    cases identity with
    | none => trivial
    | some identity => exact fun _ => trivial
  have hkeys : (sendKeys chan status nonces).Sends Frame.Posted := fun policy =>
    sends_bailIf.bind fun _ => (hidentity policy).bind fun identity =>
      (hoffers identity).bind fun _ => ⟨rfl, trivial⟩
  have hadmit : (admitRequester chan status.requester).Sends Frame.Posted :=
    fun _ _ => sends_bailIf.bind fun _ => trivial
  have hsendPolicy : (sendPolicy chan status.requester).Sends Frame.Posted :=
    fun _ => sends_bailIf.bind fun _ _ => ⟨⟨rfl, .inl rfl⟩, trivial⟩
  have hsendModeration : (sendModeration chan).Sends Frame.Posted :=
    fun _ => ⟨⟨rfl, .inl rfl⟩, trivial⟩
  exact hadmit.bind fun localPolicy => (htakePolicy localPolicy _).bind fun _ =>
    hsendPolicy.bind fun _ => (htakeModeration _).bind fun _ => hsendModeration.bind fun _ => hkeys

/-- Accepting keys posts nothing. -/
theorem posted_acceptKeys (policy : ChannelPolicy) (identity : Option KeypairFile) (m : KeySync) :
    (acceptKeys chan requester policy identity m).Sends Frame.Posted := by
  refine sends_bailIf.bind fun _ => sends_bailIf.bind fun _ => (sends_except _).bind fun _ => ?_
  cases identity with
  | none => exact sends_bailIf
  | some identity => exact fun _ => trivial

/-- Reading buckets posts nothing. -/
theorem posted_readChunks (indices : List ℕ) : (readChunks chan indices).Sends Frame.Posted := by
  induction indices with
  | nil => trivial
  | cons index indices ih => exact fun _ => ih.bind fun _ => trivial

/-- The comparison posts its own frame. -/
theorem posted_diffChunks (clientChunks : List ChunkSummary) :
    (diffChunks chan clientChunks).Sends Frame.Posted :=
  fun _ => (sends_except _).bind fun _ => (posted_readChunks _).bind fun _ => ⟨rfl, trivial⟩

/-- Each envelope is a frame. -/
theorem posted_sendMessages (ids : List String) : (sendMessages chan ids).Sends Frame.Posted := by
  induction ids with
  | nil => trivial
  | cons id ids ih => exact fun _ => ⟨trivial, ih⟩

omit [Primitives] in
/-- The completion is a frame of the protocol. -/
theorem posted_finishUpload (sent received : ℕ) (wanted : Finset String) :
    (finishUpload chan sent wanted received).Sends Frame.Posted := by
  unfold finishUpload
  split
  · exact ⟨⟨sent, received, rfl⟩, trivial⟩
  · trivial

/-- **What a session sends** from any point of waiting to the next. -/
theorem posted_resume (a : Await) (i : Incoming × Ambient) : (resume a i).Sends Frame.Posted := by
  obtain ⟨i, ambient⟩ := i
  cases a with
  | status challenge =>
    exact (sends_except _).bind fun status => (sends_except _).bind fun chan =>
      posted_reconcile status ambient.nonces
  | keySync chan status policy identity =>
    refine (sends_except _).bind fun sync => ?_
    cases sync with
    | none => trivial
    | some m => exact (posted_acceptKeys _ _ _).bind fun _ => posted_diffChunks _
  | chunkIds chan serverChunks differing =>
    refine (sends_except _).bind fun batch => ?_
    cases batch with
    | none => trivial
    | some m =>
      exact (sends_except _).bind fun _ => sends_bailIf.bind fun _ =>
        ⟨rfl, (posted_sendMessages _).bind fun _ => posted_finishUpload _ _ _⟩
  | upload chan sent wanted received =>
    refine (sends_except _).bind fun env => ?_
    cases env with
    | none => trivial
    | some m =>
      exact sends_bailIf.bind fun _ => sends_bailIf.bind fun _ => (sends_except _).bind fun _ _ =>
        posted_finishUpload _ _ _
  | done => trivial

end Responder

/-! ## What a client takes it for -/

open Initiator (classify)

/-- The client takes the text for the frame, and reads what was sent. -/
def Frame.TakenAs : Frame → Decoded → Prop
  | .policySync m, t => classify t = .policySync m
  | .moderationSync m, t => classify t = .moderationSync m
  | .keySync m, t => classify t = .keySync m
  | .chunkDiff m, t => classify t = .chunkDiff m
  | .want m, t => classify t = .want m
  | .envelope m, t => classify t = .envelope (some m)
  | .response m, t => classify t = .complete ∧ t.response = some m
  | .challenge _, _ | .status _, _ | .chunkIds _, _ => False

/-- **The cascade stops at the frame's own type.** -/
theorem Frame.Posted.takenAs {f : Frame} (h : f.Posted) : f.TakenAs f.decoded := by
  cases f with
  | challenge m | status m | chunkIds m => exact h
  | policySync m =>
    obtain ⟨htype, hstatus⟩ := h
    obtain ⟨hcomplete, herror⟩ := Initiator.ne_of_update_or_conflict hstatus
    exact Initiator.classify_policySync htype hcomplete herror
  | moderationSync m =>
    obtain ⟨htype, hstatus⟩ := h
    obtain ⟨hcomplete, herror⟩ := Initiator.ne_of_update_or_conflict hstatus
    exact Initiator.classify_moderationSync htype hcomplete herror
  | keySync m =>
    have htype : m.msgType = "key_sync" := h
    show classify (Frame.keySync m).decoded = .keySync m
    simp [classify, Frame.decoded, htype, Option.filter]
  | chunkDiff m =>
    have htype : m.msgType = "chunk_diff" := h
    show classify (Frame.chunkDiff m).decoded = .chunkDiff m
    simp [classify, Frame.decoded, htype, Option.filter]
  | want m =>
    have htype : m.msgType = "want" := h
    show classify (Frame.want m).decoded = .want m
    simp [classify, Frame.decoded, htype, Option.filter]
  | envelope m => rfl
  | response m =>
    obtain ⟨sent, received, rfl⟩ := h
    exact ⟨rfl, rfl⟩

/-- A frame that is posted has a text. -/
theorem Frame.Posted.exists_toJson {f : Frame} (h : f.Posted) : ∃ value, f.toJson = some value := by
  cases f with
  | status m => exact h.elim
  | _ => exact ⟨_, rfl⟩

/-- **Frames are never confused.** What a session sends behind its
challenge is taken by the client for what it is, and reads as what was
sent, whatever it holds; `parse` is the library's reader of JSON. -/
theorem frames_never_confused (parse : Bytes → Option Json)
    (hparse : ∀ (f : Frame) (value : Json), f.Sized → f.toJson = some value →
      parse value.compact = some value) :
    (∀ [Primitives] a i, (Responder.resume a i).Sends Frame.Posted) ∧
      ∀ f : Frame, f.Posted → f.Sized → ∃ value, f.toJson = some value ∧
        f.TakenAs (Decoded.ofText parse value.compact) := by
  refine ⟨fun a i => Responder.posted_resume a i, fun f hposted hsized => ?_⟩
  obtain ⟨value, hvalue⟩ := hposted.exists_toJson
  have hread : Decoded.ofText parse value.compact = f.decoded := by
    rw [Decoded.ofText, hparse f value hsized hvalue]
    exact Frame.decoded_eq hsized hvalue
  exact ⟨value, hvalue, hread ▸ hposted.takenAs⟩

/-- The law for a moderation frame without events, which reads as a
response and as a policy frame too. -/
theorem frames_never_confused_empty : ∃ (parse : Bytes → Option Json) (value : Json),
    (Frame.moderationSync ⟨"moderation_sync", "update", []⟩).toJson = some value ∧
      (Decoded.ofText parse value.compact).response.isSome = true ∧
      (Decoded.ofText parse value.compact).policySync.isSome = true ∧
      classify (Decoded.ofText parse value.compact) =
        .moderationSync ⟨"moderation_sync", "update", []⟩ := by
  have hparse : ∀ value : Json, Simulated.readBack id value.compact = some value :=
    Simulated.readBack_compact Function.injective_id
  obtain ⟨value, hvalue, htaken⟩ := (frames_never_confused (Simulated.readBack id)
    fun _ value _ _ => hparse value).2 (.moderationSync ⟨"moderation_sync", "update", []⟩)
      ⟨rfl, .inl rfl⟩ trivial
  refine ⟨_, value, hvalue, ?_, ?_, htaken⟩
  · cases hvalue
    rw [Decoded.ofText, hparse]
    rfl
  · cases hvalue
    rw [Decoded.ofText, hparse]
    rfl

end Embernet
