import Embernet.Sync.Promises
/-!
# Settlement — what the serving side promises

The node that serves compares two inventories, asks for the ids that it
lacks in the buckets that differ, and sends the envelopes that the other
lacks. What it compares with what is a matter of the frames it heard, so
each promise names them: the status packet, the batch of ids, and the
lists that were read here.
-/

set_option autoImplicit false

namespace Embernet

open Proc Primitives Duplex

namespace Responder

/-! ## What was compared -/

/-- The lists that were read here, the buckets that differ, and the batch
that the client sent for them. -/
structure Exchange where
  serverChunks : List ChunkIds
  differing : List ℕ
  batch : ChunkBatch

namespace Exchange

/-- What the client has listed and the node has not. -/
def lacked (x : Exchange) : Finset String := inventory x.batch.chunks \ inventory x.serverChunks

/-- What the node has listed and the client has not. -/
def offered (x : Exchange) : Finset String := inventory x.serverChunks \ inventory x.batch.chunks

end Exchange

variable [Primitives] {chan : ChannelRef} {d₀ : Datadir}

/-- The buckets differ between an inventory of this log and that of the
status packet, and their lists were read here. -/
structure Compared (chan : ChannelRef) (d₀ : Datadir) (serverChunks : List ChunkIds)
    (differing : List ℕ) (g : Talk Datadir Frame) : Prop where
  summed : ∃ status sums, .status status ∈ g.heard ∧ ChannelRef.parse status.channel = .ok chan ∧
    (Seen chan d₀ g.state fun T => Summed T sums) ∧
    differing = differingChunks sums status.chunks
  indices : serverChunks.map ChunkIds.index = differing
  listed : ∀ chunk ∈ serverChunks, Seen chan d₀ g.state fun T => Lists T chunk

/-- The client's batch has come besides, and was checked. -/
structure Exchanged (chan : ChannelRef) (d₀ : Datadir) (x : Exchange) (g : Talk Datadir Frame) :
    Prop where
  compared : Compared chan d₀ x.serverChunks x.differing g
  heard : ∃ f ∈ g.heard, f.decoded.chunkBatch = some x.batch ∧ x.batch.msgType = "chunk_ids"
  checked : checkBatch x.differing x.batch.chunks = .ok ()

/-- No completion was sent. -/
def Unfinished (said : List Frame) : Prop := ∀ response, .response response ∉ said

/-- The upload is under way: what the client lacks was sent, each id once,
and of what the node lacks all but `wanted` has come, each id once, and is
in the log. -/
structure Uploading (chan : ChannelRef) (d₀ : Datadir) (x : Exchange) (sent : ℕ)
    (wanted : Finset String) (received : ℕ) (g : Talk Datadir Frame) : Prop where
  exchanged : Exchanged chan d₀ x g
  unfinished : Unfinished g.said
  balance : g.heard.length + wanted.card = repliesTo g.said
  sent : (envelopes g.said).length = sent
  sentOnce : ((envelopes g.said).map Envelope.id).Nodup
  received : (envelopes g.heard).length = received
  receivedOnce : ((envelopes g.heard).map Envelope.id).Nodup
  gone : ∀ id ∈ (envelopes g.heard).map Envelope.id, id ∉ wanted
  offered : ∀ id ∈ x.offered, id ∈ (envelopes g.said).map Envelope.id
  lacked : ∀ id ∈ x.lacked, id ∈ wanted ∨ Seen chan d₀ g.state fun T => id ∈ T.map Envelope.id

/-- One answer is still to come, and no envelope has gone either way. -/
structure Opened (g : Talk Datadir Frame) : Prop where
  unfinished : Unfinished g.said
  balance : g.heard.length + 1 = repliesTo g.said
  heard : envelopes g.heard = []
  said : envelopes g.said = []

/-- What the node promises of a frame. -/
def promise (d₀ : Datadir) (m : Frame) (g : Talk Datadir Frame) : Prop :=
  (m.Posted ∨ ∃ challenge, m = .challenge challenge) ∧ Unfinished g.said ∧
    match m with
    | .want want => ∃ chan x, Exchanged chan d₀ x g ∧ ∀ id ∈ want.ids, id ∈ x.lacked
    | .envelope env => ∃ chan x, Exchanged chan d₀ x g ∧ env.id ∈ x.offered
    | .response response => ∃ chan x sent received, response = .complete sent received ∧
        Uploading chan d₀ x sent ∅ received g
    | _ => True

/-- What the node knows where it waits. -/
def stands (d₀ : Datadir) : Await → Talk Datadir Frame → Prop
  | .status challenge, g => growing.rel d₀ g.state ∧ g.heard = [] ∧ g.said = [.challenge challenge]
  | .keySync chan status _ _, g => growing.rel d₀ g.state ∧ .status status ∈ g.heard ∧
      ChannelRef.parse status.channel = .ok chan ∧ Opened g
  | .chunkIds chan serverChunks differing, g => growing.rel d₀ g.state ∧
      Compared chan d₀ serverChunks differing g ∧ Opened g
  | .upload chan sent wanted received, g => growing.rel d₀ g.state ∧ wanted.Nonempty ∧
      ∃ x, Uploading chan d₀ x sent wanted received g
  | .done, _ => True

omit [Primitives] in
/-- Frames that are none of them a completion. -/
theorem Unfinished.append {said ms : List Frame} (h : Unfinished said) (hms : Unfinished ms) :
    Unfinished (said ++ ms) := by
  intro response hmem
  rcases List.mem_append.1 hmem with hmem | hmem
  · exact h response hmem
  · exact hms response hmem

omit [Primitives] in
/-- Envelopes complete nothing. -/
theorem unfinished_map (envs : List Envelope) : Unfinished (envs.map Frame.envelope) := by
  intro response hmem
  obtain ⟨env, -, heq⟩ := List.mem_map.1 hmem
  cases heq

variable {s t : Datadir} {heard heard' said said' : List Frame}

/-- What was compared stays so while the logs grow. -/
theorem Compared.later {serverChunks : List ChunkIds} {differing : List ℕ}
    (h : Compared chan d₀ serverChunks differing ⟨s, heard, said⟩) (hrel : growing.rel s t)
    (hheard : heard ⊆ heard') : Compared chan d₀ serverChunks differing ⟨t, heard', said'⟩ where
  summed := by
    obtain ⟨status, sums, hstatus, hparse, hsums, hdiffering⟩ := h.summed
    exact ⟨status, sums, hheard hstatus, hparse, hsums.later hrel, hdiffering⟩
  indices := h.indices
  listed chunk hchunk := (h.listed chunk hchunk).later hrel

/-- What was exchanged stays so while the logs grow. -/
theorem Exchanged.later {x : Exchange} (h : Exchanged chan d₀ x ⟨s, heard, said⟩)
    (hrel : growing.rel s t) (hheard : heard ⊆ heard') :
    Exchanged chan d₀ x ⟨t, heard', said'⟩ where
  compared := h.compared.later hrel hheard
  heard := by
    obtain ⟨f, hf, hbatch⟩ := h.heard
    exact ⟨f, hheard hf, hbatch⟩
  checked := h.checked

/-- What is still to come stays so while the logs grow. -/
theorem Uploading.later {x : Exchange} {sent received : ℕ} {wanted : Finset String}
    (h : Uploading chan d₀ x sent wanted received ⟨s, heard, said⟩) (hrel : growing.rel s t) :
    Uploading chan d₀ x sent wanted received ⟨t, heard, said⟩ where
  exchanged := h.exchanged.later hrel (List.Subset.refl _)
  unfinished := h.unfinished
  balance := h.balance
  sent := h.sent
  sentOnce := h.sentOnce
  received := h.received
  receivedOnce := h.receivedOnce
  gone := h.gone
  offered := h.offered
  lacked id hid := (h.lacked id hid).imp_right fun hseen => hseen.later hrel

/-- **An upload that is taken**: one envelope less is wanted. -/
theorem Uploading.take {x : Exchange} {sent received : ℕ} {wanted : Finset String} {env : Envelope}
    (h : Uploading chan d₀ x sent wanted received ⟨s, heard, said⟩) (hrel : growing.rel s t)
    (hwanted : env.id ∈ wanted)
    (hseen : Seen chan d₀ t fun T => env.id ∈ T.map Envelope.id) :
    Uploading chan d₀ x sent (wanted.erase env.id) (received + 1)
      ⟨t, heard ++ [.envelope env], said⟩ where
  exchanged := h.exchanged.later hrel (List.subset_append_left _ _)
  unfinished := h.unfinished
  balance := by
    have hbalance := h.balance
    have hcard := Finset.card_erase_add_one hwanted
    simp only [List.length_append, List.length_singleton] at hbalance ⊢
    omega
  sent := h.sent
  sentOnce := h.sentOnce
  received := by
    rw [envelopes_append, List.length_append, ← h.received]
    rfl
  receivedOnce := by
    rw [envelopes_append, List.map_append]
    refine List.nodup_append.2 ⟨h.receivedOnce, List.nodup_singleton _, ?_⟩
    -- what has come is not wanted, and this one was
    rintro id hid _ hid' rfl
    rw [List.mem_singleton.1 hid'] at hid
    exact h.gone _ hid hwanted
  gone id hid := by
    rw [envelopes_append, List.map_append, List.mem_append] at hid
    rcases hid with hid | hid
    · exact fun hleft => h.gone id hid (Finset.mem_of_mem_erase hleft)
    · rw [List.mem_singleton.1 hid]
      exact Finset.notMem_erase _ _
  offered := h.offered
  lacked id hid := by
    by_cases hid' : id = env.id
    · subst hid'
      exact .inr hseen
    · rcases h.lacked id hid with hleft | hin
      · exact .inl (Finset.mem_erase.2 ⟨hid', hleft⟩)
      · exact .inr (hin.later hrel)

omit [Primitives] in
/-- A frame before the upload, with what it was answered. -/
theorem Opened.next {f : Frame} {ms : List Frame} (h : Opened ⟨s, heard, said⟩)
    (hreplies : repliesTo ms = 1) (hf : envelopes [f] = []) (hms : envelopes ms = [])
    (hunfinished : Unfinished ms) : Opened ⟨t, heard ++ [f], said ++ ms⟩ where
  unfinished := h.unfinished.append hunfinished
  balance := by
    have hbalance := h.balance
    simp only [List.length_append, List.length_singleton, repliesTo_append] at hbalance ⊢
    omega
  heard := by
    have hheard := h.heard
    simp only [envelopes_append] at hheard ⊢
    rw [hheard, hf]
    rfl
  said := by
    have hsaid := h.said
    simp only [envelopes_append] at hsaid ⊢
    rw [hsaid, hms]
    rfl

/-! ## From the status packet to the keys -/

/-- The frames that promise no more than to be what they are. -/
def Preliminary : Frame → Prop
  | .policySync m => (Frame.policySync m).Posted
  | .moderationSync m => (Frame.moderationSync m).Posted
  | .keySync m => (Frame.keySync m).Posted
  | _ => False

omit [Primitives] in
/-- The frames before the comparison are of the protocol. -/
theorem Preliminary.ofFrame {m : Frame} (h : Preliminary m) : m.Posted := by
  cases m with
  | policySync m => exact h
  | moderationSync m => exact h
  | keySync m => exact h
  | _ => cases h

omit [Primitives] in
/-- Preliminary frames complete nothing. -/
theorem unfinished_of_preliminary {ms : List Frame} (h : ∀ m ∈ ms, Preliminary m) : Unfinished ms :=
  fun _ hmem => h _ hmem

/-- Such a frame is as promised, whatever such frames went before it. -/
theorem Preliminary.keeps {m : Frame} (h : Preliminary m) {ms : List Frame}
    (hms : ∀ m ∈ ms, Preliminary m) (hsaid : Unfinished said) : promise d₀ m ⟨t, heard, said ++ ms⟩ := by
  refine ⟨.inl h.ofFrame, hsaid.append (unfinished_of_preliminary hms), ?_⟩
  cases m with
  | want m => cases h
  | envelope m => cases h
  | response m => cases h
  | _ => trivial

/-- The two histories and the keys, as they are sent. -/
def Reconciled (ms : List Frame) : Prop :=
  ∃ p m k, ms = [.policySync p, .moderationSync m, .keySync k]

/-- The histories are exchanged by such frames alone. -/
theorem speaks_reconcile (status : StatusMessage) (nonces : ℕ → Bytes) :
    Speaks Preliminary (fun w ms => (∃ policy identity, w = .keySync chan status policy identity) ∧
      Reconciled ms) (reconcile chan status nonces) := by
  have htakePolicy (localPolicy remote : List PolicyEvent) :
      Speaks Preliminary (fun _ ms => ms = []) (takePolicy chan localPolicy remote) := by
    unfold takePolicy
    dsimp only
    split
    · exact .bind (.call fun _ => .bind (.emit ⟨rfl, .inr rfl⟩ trivial))
    split
    · exact .bind (.call fun _ => .ret rfl)
    · exact .ret rfl
  have htakeModeration (remote : List ModerationEvent) :
      Speaks Preliminary (fun _ ms => ms = []) (takeModeration chan remote) := by
    refine .bind (.call fun _ => .bind (.call fun events => ?_))
    dsimp only
    split
    · exact .bind (.call fun _ => .bind (.emit ⟨rfl, .inr rfl⟩ trivial))
    split
    · exact .bind (.call fun _ => .ret rfl)
    · exact .ret rfl
  have hidentity (policy : ChannelPolicy) :
      Speaks Preliminary (fun _ ms => ms = []) (serverIdentity policy) := by
    unfold serverIdentity
    split
    · exact .bind (.call fun _ => .bind (.bailIf fun _ => .ret rfl))
    · exact .ret rfl
  have hoffers (identity : Option KeypairFile) :
      Speaks Preliminary (fun _ ms => ms = [])
        (keyOffers chan status.requester nonces identity) := by
    cases identity with
    | none => exact .ret rfl
    | some identity => exact .call fun _ => rfl
  refine .bind (.bind (.call fun localPolicy => .bind (.call fun _ => .bind (.bailIf fun _ =>
    .ret ?_))))
  refine .bind ((htakePolicy _ _).mono ?_)
  rintro _ _ rfl
  refine .bind (.bind (.call fun _ => .bind (.bailIf fun _ => .bind (.call fun policyEvents =>
    .emit ⟨rfl, .inl rfl⟩ ?_))))
  refine .bind ((htakeModeration _).mono ?_)
  rintro _ _ rfl
  refine .bind (.bind (.call fun moderationEvents => .emit ⟨rfl, .inl rfl⟩ ?_))
  refine .bind (.call fun policy => .bind (.bailIf fun _ => .bind ((hidentity policy).mono ?_)))
  rintro identity _ rfl
  refine .bind ((hoffers identity).mono ?_)
  rintro offers _ rfl
  exact .bind (.emit rfl (.ret ⟨⟨_, _, rfl⟩, _, _, _, rfl⟩))

/-- The keys in return are accepted without a word. -/
theorem speaks_acceptKeys {requester : String} {policy : ChannelPolicy}
    {identity : Option KeypairFile} {m : KeySync} :
    Speaks Preliminary (fun _ ms => ms = []) (acceptKeys chan requester policy identity m) := by
  refine .bind (.bailIf fun _ => .bind (.bailIf fun _ => .bind (.except fun _ _ => ?_)))
  cases identity with
  | none => exact .bailIf fun _ => rfl
  | some identity => exact .bind (.call fun _ => .ret rfl)

/-! ## The steps -/

/-- The server comes to stand where it waits for the packet. -/
theorem reaches_start {identity : KeypairFile} {random : Bytes} {now : Int64} :
    Reaches Ambient growing (promise d₀) (start identity random now) (stands d₀) ⟨d₀, [], []⟩ := by
  refine .bind (.except fun challenge t _ ht => .bind (.emit (fun u hu => ?_) fun u hu =>
    .ret fun v hv => ⟨?_, rfl, rfl⟩))
  · exact ⟨.inr ⟨challenge, rfl⟩, by simp [Unfinished], trivial⟩
  · exact growing.trans ht (growing.trans hu hv)

/-- The comparison is of the server's log as it is then. -/
theorem reaches_diffChunks {status : StatusMessage} (hs : growing.rel d₀ s)
    (hstatus : .status status ∈ heard) (hparse : ChannelRef.parse status.channel = .ok chan)
    {f : Frame} (hf : envelopes [f] = []) (hopened : Opened ⟨s, heard, said⟩) :
    Reaches Ambient growing (promise d₀) (diffChunks chan status.chunks) (stands d₀)
      ⟨s, heard ++ [f], said⟩ := by
  have hstored : Stored chan _ .chunkSummaries (chunkSummaries chan) :=
    .chunkSummaries
  refine .bind (.call hstored.grows fun t sums u v ht hexec hv =>
    .bind (.except fun _ w _ hw => ?_))
  have hseen := seen_chunkSummaries (growing.trans hs ht) hexec hv
  have hgrown : growing.rel s w := by
    have hcall := hstored.grows t
    rw [hexec] at hcall
    exact growing.trans ht (growing.trans hcall (growing.trans hv hw))
  refine .bind ((reaches_readChunks (growing.trans hs hgrown)).mono ?_)
  rintro chunks ⟨t₁, heard₁, said₁⟩ ⟨h₁, rfl, rfl, hindices, hlisted⟩
  refine .bind (.emit (fun t₂ _ => ⟨.inl rfl, hopened.unfinished, trivial⟩)
    fun t₂ h₂ => .ret fun t₃ h₃ => ?_)
  have hlater := growing.trans h₁ (growing.trans h₂ h₃)
  refine ⟨growing.trans hs (growing.trans hgrown hlater), ?_,
    hopened.next rfl hf rfl (by simp [Unfinished])⟩
  exact
    { summed := ⟨status, sums, List.mem_append_left _ hstatus, hparse,
        (hseen.later hw).later hlater, rfl⟩
      indices := hindices
      listed := fun chunk hchunk => (hlisted chunk hchunk).later (growing.trans h₂ h₃) }

/-- The completion is sent once nothing is wanted. -/
theorem reaches_finishUpload {x : Exchange} {sent received : ℕ} {wanted : Finset String}
    (hs : growing.rel d₀ s)
    (huploading : Uploading chan d₀ x sent wanted received ⟨s, heard, said⟩) :
    Reaches Ambient growing (promise d₀) (finishUpload chan sent wanted received) (stands d₀)
      ⟨s, heard, said⟩ := by
  unfold finishUpload
  split
  · rename_i hempty
    subst hempty
    refine .bind (.emit (fun t ht => ?_) fun t _ => .ret fun _ _ => trivial)
    exact ⟨.inl ⟨sent, received, rfl⟩, huploading.unfinished, chan, x, sent, received, rfl,
      huploading.later ht⟩
  · rename_i hwanted
    exact .ret fun t ht => ⟨growing.trans hs ht, Finset.nonempty_iff_ne_empty.2 hwanted, x,
      huploading.later ht⟩

/-- **The exchange asks for what is lacking and sends what the client
lacks.** -/
theorem reaches_exchangeIds {x : Exchange} {ambient : Ambient} (hs : growing.rel d₀ s)
    (hcompared : Compared chan d₀ x.serverChunks x.differing ⟨s, heard, said⟩)
    (hopened : Opened ⟨s, heard, said⟩) {f : Frame} (hf : f.decoded.chunkBatch = some x.batch)
    (htype : x.batch.msgType = "chunk_ids") :
    Reaches Ambient growing (promise d₀)
      (exchangeIds chan x.serverChunks x.differing x.batch ambient) (stands d₀)
      ⟨s, heard ++ [f], said⟩ := by
  refine .bind (.except fun _ t hchecked ht => .bind (.bailIf fun _ u hu => ?_))
  have hexchanged (v : Datadir) (said' : List Frame) (hv : growing.rel s v) :
      Exchanged chan d₀ x ⟨v, heard ++ [f], said'⟩ :=
    { compared := hcompared.later hv (List.subset_append_left _ _)
      heard := ⟨f, List.mem_append_right _ List.mem_cons_self, hf, htype⟩
      checked := hchecked }
  have hrel := growing.trans ht hu
  set want := ambient.wantOrder.list x.lacked with hwant
  set send := ambient.sendOrder.list x.offered with hsend
  have hwantSet : want.toFinset = x.lacked := ambient.wantOrder.toFinset _
  have hsendSet : send.toFinset = x.offered := ambient.sendOrder.toFinset _
  have hasked : Unfinished (said ++ [.want ⟨"want", want⟩]) :=
    hopened.unfinished.append (by simp [Unfinished])
  refine .bind (.emit (m := Frame.want ⟨"want", want⟩) (fun v hv => ?_) fun v hv => ?_)
  · refine ⟨.inl rfl, hopened.unfinished, chan, x, hexchanged v _ (growing.trans hrel hv),
      fun id hid => ?_⟩
    rw [← hwantSet]
    exact List.mem_toFinset.2 hid
  refine .bind ((reaches_sendMessages fun env w envs henv hw => ?_).mono ?_)
  · refine ⟨.inl trivial, hasked.append (unfinished_map envs), chan, x,
      hexchanged w _ (growing.trans hrel (growing.trans hv hw)), ?_⟩
    rw [← hsendSet]
    exact List.mem_toFinset.2 henv
  rintro _ ⟨w, heard', said'⟩ ⟨hw, rfl, envs, henvs, rfl⟩
  have hlater := growing.trans hrel (growing.trans hv hw)
  have hsent : envs.map Envelope.id = send := henvs
  suffices huploading : Uploading chan d₀ x send.length want.toFinset 0 ⟨w, heard ++ [f],
      said ++ [.want ⟨"want", want⟩] ++ envs.map Frame.envelope⟩ from
    reaches_finishUpload (growing.trans hs hlater) huploading
  have hcount :
      envelopes (said ++ [Frame.want ⟨"want", want⟩] ++ envs.map Frame.envelope) = envs := by
    rw [envelopes_append, envelopes_append, hopened.said, envelopes_map]
    rfl
  have hcame : envelopes (heard ++ [f]) = [] := by
    rw [envelopes_append, hopened.heard, ne_envelope_of_decoded_chunkBatch hf]
    rfl
  exact
    { exchanged := hexchanged w _ hlater
      unfinished := hasked.append (unfinished_map envs)
      balance := by
        -- the client answers with one envelope for each id
        have hcard : want.toFinset.card = want.length :=
          List.toFinset_card_of_nodup (ambient.wantOrder.nodup _)
        have hreplies : repliesTo [Frame.want ⟨"want", want⟩] = want.length := by
          simp [repliesTo, replies]
        have hbalance := hopened.balance
        simp only [List.length_append, List.length_singleton, repliesTo_append, repliesTo_map,
          hreplies] at hbalance ⊢
        omega
      sent := by
        rw [hcount, ← hsent, List.length_map]
      sentOnce := by
        rw [hcount, hsent]
        exact ambient.sendOrder.nodup _
      received := by
        rw [hcame]
        rfl
      receivedOnce := by
        rw [hcame]
        exact List.nodup_nil
      gone := by
        rw [hcame]
        simp
      offered := fun id hid => by
        rw [hcount, hsent, ← List.mem_toFinset, hsendSet]
        exact hid
      lacked := fun id hid => by
        rw [hwantSet]
        exact .inl hid }

/-- An upload is one id less that is wanted. -/
theorem reaches_acceptUpload {x : Exchange} {sent received : ℕ} {wanted : Finset String}
    {env : Envelope} (hs : growing.rel d₀ s)
    (huploading : Uploading chan d₀ x sent wanted received ⟨s, heard, said⟩) :
    Reaches Ambient growing (promise d₀) (acceptUpload chan sent wanted received env) (stands d₀)
      ⟨s, heard ++ [.envelope env], said⟩ := by
  have hstored : Stored chan _ .appendMessage (appendMessage chan env) :=
    .appendMessage env
  refine .bind (.bailIf fun hwanted t₁ h₁ => .bind (.bailIf fun _ t₂ h₂ => .bind
    (.except fun _ t₃ _ h₃ => .bind (.call hstored.grows fun t id u v ht hexec hv => ?_))))
  have hstart := growing.trans h₁ (growing.trans h₂ (growing.trans h₃ ht))
  have hgrown : growing.rel s v := by
    have hcall := hstored.grows t
    rw [hexec] at hcall
    exact growing.trans hstart (growing.trans hcall hv)
  have hseen := seen_appendMessage (growing.trans hs hstart) hexec hv
  exact reaches_finishUpload (growing.trans hs hgrown)
    (huploading.take hgrown (not_not.1 hwanted) hseen)

/-- **Wherever the server stands, it keeps its promise to the next frame.**
-/
theorem reaches_resume {w : Await} {i : Option Frame} {ambient : Ambient}
    (hstands : stands d₀ w ⟨t, heard, said⟩) :
    Reaches Ambient growing (promise d₀) (resume w (arrival i, ambient)) (stands d₀)
      ⟨t, heard ++ i.toList, said⟩ := by
  cases w with
  | status challenge =>
    obtain ⟨ht, rfl, rfl⟩ := hstands
    refine .bind (.except fun status u hread hu => .bind (.except fun chan v hcheck hv => ?_))
    obtain rfl : i = some (.status status) := by
      cases i with
      | none => cases hread
      | some f =>
        simp only [arrival, readStatus, bind_eq_ok, orBail_eq_ok, bailIf_eq_ok,
          pure_eq_ok] at hread
        obtain ⟨m, hm, _, -, rfl⟩ := hread
        rw [eq_of_decoded_status hm]
    have hparse := (checkStatus_ok.1 hcheck).1.channel
    have hrel := growing.trans hu hv
    have hstored : (reconcile chan status ambient.nonces).Each (Stored chan) :=
      stored_reconcile status ambient.nonces
    have hreconcile := hstored.mono fun _ _ _ hx => hx.grows
    refine .drift hreconcile (speaks_reconcile status ambient.nonces)
      (fun m _ ms hm hms => hm.keeps hms (by simp [Unfinished])) ?_
    rintro _ t₁ _ h₁ ⟨⟨policy, identity, rfl⟩, p, m, k, rfl⟩
    exact ⟨growing.trans ht (growing.trans hrel h₁), List.mem_cons_self, hparse,
      by simp [Unfinished], rfl, rfl, rfl⟩
  | keySync chan status policy identity =>
    obtain ⟨ht, hstatus, hparse, hopened⟩ := hstands
    refine .bind (.except fun o u hread hu => ?_)
    obtain ⟨m, rfl, rfl⟩ : ∃ m, i = some (.keySync m) ∧ o = some m := by
      cases i with
      | none => cases hread
      | some f =>
        simp only [arrival, readKeySync, nextText, bind_eq_ok, pure_eq_ok] at hread
        obtain ⟨_, rfl, hread⟩ := hread
        simp only [bind_eq_ok, orBail_eq_ok, bailIf_eq_ok, pure_eq_ok] at hread
        obtain ⟨m, hm, _, -, rfl⟩ := hread
        exact ⟨m, by rw [eq_of_decoded_keySync hm], rfl⟩
    have hstored : (acceptKeys chan status.requester policy identity m).Each (Stored chan) :=
      stored_acceptKeys status.requester policy identity m
    have hkeys := hstored.mono fun _ _ _ hx => hx.grows
    refine .bind (.drift hkeys speaks_acceptKeys
      (fun m _ ms hm hms => hm.keeps hms hopened.unfinished) ?_)
    rintro _ v _ hv rfl
    rw [List.append_nil]
    have hrel := growing.trans hu hv
    exact reaches_diffChunks (growing.trans ht hrel) hstatus hparse rfl
      ⟨hopened.unfinished, hopened.balance, hopened.heard, hopened.said⟩
  | chunkIds chan serverChunks differing =>
    obtain ⟨ht, hcompared, hopened⟩ := hstands
    refine .bind (.except fun o u hread hu => ?_)
    obtain ⟨f, batch, rfl, rfl, hf, htype⟩ : ∃ f batch, i = some f ∧ o = some batch ∧
        f.decoded.chunkBatch = some batch ∧ batch.msgType = "chunk_ids" := by
      cases i with
      | none => cases hread
      | some f =>
        simp only [arrival, readChunkBatch, nextText, bind_eq_ok, pure_eq_ok] at hread
        obtain ⟨_, rfl, hread⟩ := hread
        simp only [bind_eq_ok, orBail_eq_ok, bailIf_eq_ok, pure_eq_ok] at hread
        obtain ⟨batch, hbatch, _, htype, rfl⟩ := hread
        exact ⟨f, batch, rfl, rfl, hbatch, not_not.1 htype⟩
    exact reaches_exchangeIds (x := ⟨serverChunks, differing, batch⟩) (growing.trans ht hu)
      (hcompared.later hu (List.Subset.refl _))
      ⟨hopened.unfinished, hopened.balance, hopened.heard, hopened.said⟩ hf htype
  | upload chan sent wanted received =>
    obtain ⟨ht, -, x, huploading⟩ := hstands
    refine .bind (.except fun o u hread hu => ?_)
    obtain ⟨env, rfl, rfl⟩ : ∃ env, i = some (.envelope env) ∧ o = some env := by
      cases i with
      | none => cases hread
      | some f =>
        simp only [arrival, readUpload, nextText, bind_eq_ok, pure_eq_ok] at hread
        obtain ⟨_, rfl, hread⟩ := hread
        simp only [bind_eq_ok, orBail_eq_ok, pure_eq_ok] at hread
        obtain ⟨env, henv, rfl⟩ := hread
        exact ⟨env, by rw [eq_of_decoded_envelope henv], rfl⟩
    exact reaches_acceptUpload (growing.trans ht hu) (huploading.later hu)
  | done => exact .ret fun _ _ => trivial

/-- **The node that serves, whatever it hears.** -/
theorem reliable {identity : KeypairFile} {random : Bytes} {now : Int64} :
    Reliable conduct Beside growing (promise d₀) (stands d₀) (start identity random now) d₀ where
  beside _ _ := growing_of_beside
  start := reaches_start
  resume _ _ _ _ _ _ := reaches_resume

end Responder

end Embernet
