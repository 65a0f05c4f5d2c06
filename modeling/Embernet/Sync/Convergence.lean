import Embernet.Sync.Settlement
import Embernet.Sync.Uploads
/-!
# Convergence — a session that completes leaves both logs with both

Two nodes speak over one socket, call by call and frame by frame, while
whatever else runs on either node goes on. Where the client finishes, each
log has every message that either had when the session began; and no
message is sent to a node that had it.

The two sides are put together at their promises: the batch that the node
checked is the client's own listing, and the inventories that were
compared are of logs that had at least what was there at the start.
-/

set_option autoImplicit false

namespace Embernet

open Primitives Duplex

/-! ## The buckets that differ -/

section Buckets

open Responder

variable {server client : List ChunkSummary} {i : ℕ}

/-- A bucket that is not named has no hash. -/
theorem chunkHash_of_not_mem {chunks : List ChunkSummary}
    (h : i ∉ chunks.map ChunkSummary.index) : chunkHash chunks i = none := by
  refine chunkHash_eq (fun sum hsum hindex => ?_) fun _ => rfl
  exact absurd (List.mem_map.2 ⟨sum, hsum, hindex⟩) h

/-- **A bucket that does not differ** has the same hash in both. -/
theorem chunkHash_eq_of_not_differing (h : i ∉ differingChunks server client) :
    chunkHash server i = chunkHash client i := by
  unfold differingChunks at h
  rw [Finset.mem_sort, Finset.mem_filter, not_and, not_not, List.mem_toFinset,
    List.map_append, List.mem_append] at h
  by_cases hi : i ∈ server.map ChunkSummary.index ∨ i ∈ client.map ChunkSummary.index
  · exact h hi
  · rw [not_or] at hi
    rw [chunkHash_of_not_mem hi.1, chunkHash_of_not_mem hi.2]

end Buckets

section Session

variable [Primitives] {chan : ChannelRef} {d d' : Datadir} {F F' L L' S T T' : List Envelope}

/-! ## Lists of a log -/

/-- A verified id is spelled in lower case. -/
theorem Orderly.id_eq (h : Orderly chan d F) {env : Envelope} (henv : env ∈ F) :
    env.id = hexEncode env.idBytes :=
  Envelope.id_eq_hexEncode (h.verified.1 env henv)

/-- What a list has, the log comes to have. -/
theorem Orderly.mem_of_lists (h : Orderly chan d F) (hT : T <+: F) {chunk : ChunkIds}
    (hlists : Lists T chunk) {id : String} (hid : id ∈ chunk.ids) : id ∈ F.map Envelope.id := by
  obtain ⟨b, hb, -, rfl⟩ := of_mem_lists hlists hid
  obtain ⟨env, henv, rfl⟩ := List.mem_map.1 hb
  have hF := hT.subset henv
  exact List.mem_map.2 ⟨env, hF, h.id_eq hF⟩

/-- What a log began with, a list of its bucket has. -/
theorem Orderly.mem_lists (h : Orderly chan d F) (hS : S <+: T) (hT : T <+: F) {env : Envelope}
    (henv : env ∈ S) {chunk : ChunkIds} (hlists : Lists T chunk)
    (hindex : chunk.index = bucketOf env.idBytes) : env.id ∈ chunk.ids := by
  have hmem := hS.subset henv
  rw [h.id_eq (hT.subset hmem)]
  exact Embernet.mem_of_lists hlists (List.mem_map.2 ⟨env, hmem, rfl⟩) hindex.symm

/-- An id of a list is in the bucket of the list. -/
theorem bucketOf_of_lists {chunk : ChunkIds} (hlists : Lists T chunk) {env : Envelope}
    (hid : env.id = hexEncode env.idBytes) (h : env.id ∈ chunk.ids) :
    bucketOf env.idBytes = chunk.index := by
  obtain ⟨b, -, hb, heq⟩ := of_mem_lists hlists h
  obtain rfl := hexEncode_injective (heq.trans hid)
  exact hb

/-! ## What both sides know of an exchange -/

/-- Two nodes have listed the same buckets, those in which two inventories
differ. All four are of logs that had what was there at the start. -/
structure Agreed (chan : ChannelRef) (d₁ d d₂ d' : Datadir) (mine theirs : List ChunkIds) :
    Prop where
  summed : ∃ sums sums', (Seen chan d₁ d fun T => Summed T sums) ∧
    (Seen chan d₂ d' fun T => Summed T sums') ∧
    ∀ i, (∀ chunk ∈ mine, chunk.index ≠ i) →
      Responder.chunkHash sums i = Responder.chunkHash sums' i
  indices : ∀ i, (∃ chunk ∈ mine, chunk.index = i) ↔ ∃ chunk ∈ theirs, chunk.index = i
  mine : ∀ chunk ∈ mine, Seen chan d₁ d fun T => Lists T chunk
  theirs : ∀ chunk ∈ theirs, Seen chan d₂ d' fun T => Lists T chunk

omit [Primitives] in
/-- The inventory is what the buckets list. -/
theorem mem_inventory {chunks : List ChunkIds} {id : String} :
    id ∈ Responder.inventory chunks ↔ ∃ chunk ∈ chunks, id ∈ chunk.ids := by
  simp [Responder.inventory]

namespace Agreed

variable {d₁ d₂ : Datadir} {mine theirs : List ChunkIds}

/-- Neither side of an agreement is the first. -/
theorem symm (h : Agreed chan d₁ d d₂ d' mine theirs) : Agreed chan d₂ d' d₁ d theirs mine where
  summed := by
    obtain ⟨sums, sums', hsums, hsums', hequal⟩ := h.summed
    refine ⟨sums', sums, hsums', hsums, fun i hi => (hequal i fun chunk hchunk hindex => ?_).symm⟩
    obtain ⟨chunk', hchunk', hindex'⟩ := (h.indices i).1 ⟨chunk, hchunk, hindex⟩
    exact hi chunk' hchunk' hindex'
  indices i := (h.indices i).symm
  mine := h.theirs
  theirs := h.mine

/-- **What one of them had, the other has in the end**: it had it, or what
it had not listed has come in. -/
theorem arrives (h : Agreed chan d₁ d d₂ d' mine theirs) (hF : Orderly chan d F)
    (hF' : Orderly chan d' F') (hL : Held chan L d₁) (hL' : Held chan L' d₂)
    (hU : Set.InjOn blake3 (pastBuckets F ∪ pastBuckets F'))
    (hmissing : ∀ id ∈ Responder.inventory mine \ Responder.inventory theirs,
      Seen chan d₂ d' fun T => id ∈ T.map Envelope.id)
    {env : Envelope} (henv : env ∈ L) : env.id ∈ F'.map Envelope.id := by
  by_cases hi : ∃ chunk ∈ mine, chunk.index = bucketOf env.idBytes
  · obtain ⟨chunk, hchunk, hindex⟩ := hi
    obtain ⟨T, hS, hT, hlists⟩ := h.mine chunk hchunk L hL
    have hid : env.id ∈ Responder.inventory mine :=
      mem_inventory.2 ⟨chunk, hchunk, hF.mem_lists hS (hT.isPrefix hF) henv hlists hindex⟩
    by_cases hhas : env.id ∈ Responder.inventory theirs
    · obtain ⟨chunk', hchunk', hid'⟩ := mem_inventory.1 hhas
      obtain ⟨T', -, hT', hlists'⟩ := h.theirs chunk' hchunk' L' hL'
      exact hF'.mem_of_lists (hT'.isPrefix hF') hlists' hid'
    · obtain ⟨T', -, hT', hmem⟩ := hmissing env.id (Finset.mem_sdiff.2 ⟨hid, hhas⟩) L' hL'
      exact ((hT'.isPrefix hF').map Envelope.id).subset hmem
  · -- the bucket does not differ, so its hashes are equal
    obtain ⟨sums, sums', hsums, hsums', hequal⟩ := h.summed
    obtain ⟨T, hS, hT, hsum⟩ := hsums L hL
    obtain ⟨T', -, hT', hsum'⟩ := hsums' L' hL'
    have heq := hequal (bucketOf env.idBytes) fun chunk hchunk hindex => hi ⟨chunk, hchunk, hindex⟩
    rw [hsum, hsum'] at heq
    have hb := mem_of_bucketHash_eq hU (hT.isPrefix hF) (hT'.isPrefix hF')
      (List.mem_map.2 ⟨env, hS.subset henv, rfl⟩) heq
    obtain ⟨env', henv', hbytes⟩ := List.mem_map.1 hb
    have hmem := (hT'.isPrefix hF').subset henv'
    refine List.mem_map.2 ⟨env', hmem, ?_⟩
    rw [hF'.id_eq hmem, hbytes, hF.id_eq ((hT.isPrefix hF).subset (hS.subset henv))]

/-- **What one of them misses, it did not have at the start.** -/
theorem fresh (h : Agreed chan d₁ d d₂ d' mine theirs) (hL : Held chan L d₁)
    (hL' : Held chan L' d₂) {id : String}
    (hid : id ∈ Responder.inventory mine \ Responder.inventory theirs) {env : Envelope}
    (henv : env ∈ L') : env.id ≠ id := by
  rintro rfl
  obtain ⟨hhas, hlacks⟩ := Finset.mem_sdiff.1 hid
  obtain ⟨later, horderly⟩ := hL'
  have hverified := horderly.id_eq (List.mem_append_left later henv)
  -- the list that has it is of its bucket, and the other node listed that bucket too
  obtain ⟨chunk, hchunk, hmem⟩ := mem_inventory.1 hhas
  obtain ⟨T, -, -, hlists⟩ := h.mine chunk hchunk L hL
  have hindex := bucketOf_of_lists hlists hverified hmem
  obtain ⟨chunk', hchunk', hindex'⟩ := (h.indices _).1 ⟨chunk, hchunk, hindex.symm⟩
  obtain ⟨T', hS', -, hlists'⟩ := h.theirs chunk' hchunk' L' ⟨later, horderly⟩
  refine hlacks (mem_inventory.2 ⟨chunk', hchunk', ?_⟩)
  rw [hverified]
  exact mem_of_lists hlists' (List.mem_map.2 ⟨env, hS'.subset henv, rfl⟩) hindex'.symm

end Agreed

/-- **What the node promised of an exchange, the two agree on**: the frames
that it names are the client's. -/
theorem agreed_of_exchanged {d₁ d₂ s : Datadir} {heard heard₁ heard₂ said said₂ : List Frame}
    {chan' : ChannelRef} {x : Responder.Exchange}
    (hclient : Promised growing (Initiator.promise chan d₁) ⟨d, heard, said⟩)
    (hexchanged : Responder.Exchanged chan' d₂ x ⟨s, heard₂, said₂⟩) (hrel : growing.rel s d')
    (hheard : heard₂ <+: heard₁) (hsaid : heard₁ <+: said) :
    chan' = chan ∧ Agreed chan d₁ d d₂ d' x.batch.chunks x.serverChunks := by
  have hsub : heard₂ ⊆ said := (hheard.trans hsaid).subset
  obtain ⟨status, sums', hstatus, hparse, hsums', hdiffering⟩ := hexchanged.compared.summed
  obtain ⟨s₁, heard₃, said₃, -, hs₁, -, hchannel, hsums⟩ := hclient.of_mem (hsub hstatus)
  rw [hchannel, ChannelRef.parse_fullName] at hparse
  obtain rfl : chan = chan' := Except.ok.inj hparse
  -- the frame that was read as a batch is a batch
  obtain ⟨f, hf, hbatch, htype⟩ := hexchanged.heard
  obtain ⟨s₄, heard₄, said₄, -, hs₄, hpromise⟩ := hclient.of_mem (hsub hf)
  obtain rfl : f = .chunkIds x.batch := by
    cases f with
    | status m =>
      obtain ⟨hm, -, -⟩ := hpromise
      unfold Frame.decoded at hbatch
      dsimp only at hbatch
      split at hbatch
      · rw [← Option.some.inj hbatch] at htype
        exact absurd (hm.symm.trans htype) (by decide)
      · cases hbatch
    | keySync m => cases hbatch
    | chunkIds m => rw [show m = x.batch from Option.some.inj hbatch]
    | envelope env => cases hbatch
    | _ => cases hpromise
  have hchecked := hexchanged.checked
  simp only [Responder.checkBatch, bind_eq_ok, bailIf_eq_ok, not_or, not_not] at hchecked
  obtain ⟨_, ⟨hindices, -⟩, -⟩ := hchecked
  have hasked (i : ℕ) : (∃ chunk ∈ x.batch.chunks, chunk.index = i) ↔ i ∈ x.differing := by
    rw [← List.mem_toFinset, ← hindices, List.mem_toFinset, List.mem_map]
  have hserved (i : ℕ) : (∃ chunk ∈ x.serverChunks, chunk.index = i) ↔ i ∈ x.differing := by
    rw [← hexchanged.compared.indices, List.mem_map]
  refine ⟨rfl, ⟨status.chunks, sums', hsums.later hs₁, hsums'.later hrel, fun i hi => ?_⟩,
    fun i => (hasked i).trans (hserved i).symm,
    fun chunk hchunk => (hpromise chunk hchunk).later hs₄,
    fun chunk hchunk => (hexchanged.compared.listed chunk hchunk).later hrel⟩
  refine (chunkHash_eq_of_not_differing ?_).symm
  rw [← hdiffering, ← hasked]
  rintro ⟨chunk, hchunk, hindex⟩
  exact hi chunk hchunk hindex

/-! ## The session -/

/-- A state of a session that one node asks of another, while the others
that write their files go on. Either may be cut off: the client has a
deadline, and the line may break. -/
abbrev Conversing (channel : String) (d d' : Datadir)
    (steps : List (Option (Dialogue.Speaker × List Frame)))
    (z : Pair Datadir Error Call Frame Initiator.Await Responder.Await) : Prop :=
  ∃ ts identity random now, Run (Step Initiator.conduct Responder.conduct Beside Beside)
    (Duplex.start (Initiator.start channel ts) (Responder.start identity random now) d d') steps z

variable {channel : String} {steps : List (Option (Dialogue.Speaker × List Frame))}
  {z : Pair Datadir Error Call Frame Initiator.Await Responder.Await}

/-- What the two have heard. -/
theorem Conversing.talks (h : Conversing channel d d' steps z)
    (hchan : ChannelRef.parse channel = .ok chan) :
    ∃ heard heard',
      Tells growing (Initiator.promise chan d) (Initiator.stands chan d) z.1.task
        ⟨z.1.state, heard, sentBy .caller steps⟩ ∧
      Tells growing (Responder.promise d') (Responder.stands d') z.2.task
        ⟨z.2.state, heard', sentBy .server steps⟩ ∧
      heard' ++ z.2.inbox = sentBy .caller steps ∧ heard ++ z.1.inbox = sentBy .server steps := by
  obtain ⟨ts, identity, random, now, hrun⟩ := h
  exact talks_of_run (Initiator.reliable hchan) Responder.reliable hrun

/-- **The last frame that the client takes** is the completion that the
node sent, when nothing more was wanted. -/
theorem uploading_of_complete {s : Datadir} {heard said : List Frame} {last : Frame}
    (hlast : Initiator.classify last.decoded = .complete)
    (hpromise : Responder.promise d' last ⟨s, heard, said⟩) :
    ∃ chan x sent received, last = .response (.complete sent received) ∧
      Responder.Uploading chan d' x sent ∅ received ⟨s, heard, said⟩ := by
  obtain ⟨hposted | ⟨challenge, rfl⟩, -, hsettled⟩ := hpromise
  · have htaken := hposted.takenAs
    cases last with
    | challenge m => cases htaken
    | status m => cases htaken
    | chunkIds m => cases htaken
    | response m =>
      obtain ⟨chan', x, sent, received, rfl, huploading⟩ := hsettled
      exact ⟨chan', x, sent, received, rfl, huploading⟩
    | _ => cases htaken.symm.trans hlast
  · cases hlast

/-- A session whose client has finished: what was sent before the
completion, what the node promised with it, and what the two agree on. Each
has heard all that the other said. -/
structure Completed (chan : ChannelRef) (d d' : Datadir)
    (steps : List (Option (Dialogue.Speaker × List Frame)))
    (z : Pair Datadir Error Call Frame Initiator.Await Responder.Await) (received : ℕ)
    (x : Responder.Exchange) (before : List Frame) (s : Datadir) : Prop where
  sent : sentBy .server steps = before ++ [.response (.complete (envelopes before).length
    (envelopes (sentBy .caller steps)).length)]
  callerInbox : z.1.inbox = []
  serverInbox : z.2.inbox = []
  taken : Initiator.Taken chan d received ⟨z.1.state, before, sentBy .caller steps⟩
  uploading : Responder.Uploading chan d' x (envelopes before).length ∅
    (envelopes (sentBy .caller steps)).length ⟨s, sentBy .caller steps, before⟩
  later : growing.rel s z.2.state
  agreed : Agreed chan d z.1.state d' z.2.state x.batch.chunks x.serverChunks

/-- **What a finished client has been through**, told of both sides. -/
theorem Conversing.completed (hrun : Conversing channel d d' steps z)
    (hchan : ChannelRef.parse channel = .ok chan) {received : ℕ}
    (hdone : z.1.task = .ret (.done received)) :
    ∃ x before s, Completed chan d d' steps z received x before s := by
  obtain ⟨heard, heard', hclient, hserver, hsaid, hsaid'⟩ := hrun.talks hchan
  obtain ⟨before, last, hpre, hlast, htaken⟩ := hclient.stands _ hdone
  -- the client heard the completion behind all that was said before it
  obtain ⟨rest, hrest⟩ := hpre.trans ⟨z.1.inbox, hsaid'⟩
  rw [List.append_assoc, List.singleton_append] at hrest
  obtain ⟨s, heard₂, hheard₂, hrel, hpromise⟩ := hserver.promised before last rest hrest.symm
  obtain ⟨chan', x, sent, uploads, rfl, huploading⟩ := uploading_of_complete hlast hpromise
  have hheard' : heard' <+: sentBy .caller steps := ⟨z.2.inbox, hsaid⟩
  obtain ⟨rfl, hagreed⟩ := agreed_of_exchanged hclient.promised huploading.exchanged hrel hheard₂
    hheard'
  -- and the node said nothing behind it
  obtain rfl : rest = [] := by
    rcases rest with _ | ⟨m, rest⟩
    · rfl
    · rw [← List.singleton_append, ← List.append_assoc] at hrest
      obtain ⟨s', heard₃, -, -, -, hunfinished, -⟩ := hserver.promised _ m rest hrest.symm
      exact absurd (List.mem_append_right before List.mem_cons_self) (hunfinished _)
  have hcaller : z.1.inbox = [] := by
    have hlength := congrArg List.length (hsaid'.trans hrest.symm)
    have hle := hpre.length_le
    simp only [List.length_append, List.length_cons, List.length_nil] at hlength hle
    exact List.length_eq_zero_iff.1 (by omega)
  -- the node had heard as many frames as the client had answered with
  have hall : heard₂ = sentBy .caller steps := by
    have hanswered := htaken.answered
    have hbalance := huploading.balance
    rw [Finset.card_empty] at hbalance
    refine (hheard₂.trans hheard').eq_of_length ?_
    simp only at hanswered hbalance
    omega
  have hserver' : z.2.inbox = [] := by
    have hle : (sentBy .caller steps).length ≤ heard'.length := hall ▸ hheard₂.length_le
    have hlength := congrArg List.length hsaid
    rw [List.length_append] at hlength
    exact List.length_eq_zero_iff.1 (by omega)
  subst hall
  obtain rfl : (envelopes before).length = sent := huploading.sent
  obtain rfl : (envelopes (sentBy .caller steps)).length = uploads := huploading.received
  exact ⟨x, before, s, hrest.symm, hcaller, hserver', htaken, huploading, hrel, hagreed⟩

/-- **A session that completes.** Where the client has finished, the logs
of both nodes begin as they did, and each has every id that either had when
the session began, unless two different buckets of ids have one hash. That
is so however the calls and frames of the two fell, and whatever other
operations of either node ran between them. -/
theorem session_converges (hchan : ChannelRef.parse channel = .ok chan)
    (hrun : Conversing channel d d' steps z) {received : ℕ}
    (hdone : z.1.task = .ret (.done received)) (hL : Orderly chan d L)
    (hL' : Orderly chan d' L') :
    ∃ F F', Orderly chan z.1.state F ∧ Orderly chan z.2.state F' ∧ L <+: F ∧ L' <+: F' ∧
      (Set.InjOn blake3 (pastBuckets F ∪ pastBuckets F') →
        ∀ env ∈ L ++ L', env.id ∈ F.map Envelope.id ∧ env.id ∈ F'.map Envelope.id) := by
  obtain ⟨x, before, s, h⟩ := hrun.completed hchan hdone
  -- both logs have grown from what they were
  obtain ⟨sums, sums', hsums, hsums', -⟩ := h.agreed.summed
  obtain ⟨T, hS, ⟨later, hF⟩, -⟩ := hsums L hL.held
  obtain ⟨T', hS', ⟨later', hF'⟩, -⟩ := hsums' L' hL'.held
  refine ⟨_, _, hF, hF', hS.trans (List.prefix_append _ _), hS'.trans (List.prefix_append _ _),
    fun hU env henv => ?_⟩
  have hlacked (id : String) (hid : id ∈ x.lacked) :
      Seen chan d' z.2.state fun T => id ∈ T.map Envelope.id :=
    ((h.uploading.lacked id hid).resolve_left (Finset.notMem_empty id)).later h.later
  have hoffered (id : String) (hid : id ∈ x.offered) :
      Seen chan d z.1.state fun T => id ∈ T.map Envelope.id := by
    obtain ⟨env', henv', rfl⟩ := List.mem_map.1 (h.uploading.offered id hid)
    exact h.taken.logged env' henv'
  rcases List.mem_append.1 henv with henv | henv
  · refine ⟨?_, h.agreed.arrives hF hF' hL.held hL'.held hU hlacked henv⟩
    exact List.mem_map_of_mem ((hS.trans (List.prefix_append _ _)).subset henv)
  · refine ⟨?_, List.mem_map_of_mem ((hS'.trans (List.prefix_append _ _)).subset henv)⟩
    exact h.agreed.symm.arrives hF' hF hL'.held hL.held (Set.union_comm _ _ ▸ hU) hoffered henv

/-- **Nothing is sent that is there.** No envelope that a session sends a
node, at whatever point the session is, has the id of one that the node had
when it began. -/
theorem session_sends_what_is_missing (hchan : ChannelRef.parse channel = .ok chan)
    (hrun : Conversing channel d d' steps z) (hL : Held chan L d) (hL' : Held chan L' d') :
    (∀ env ∈ envelopes (sentBy .server steps), ∀ old ∈ L, old.id ≠ env.id) ∧
      ∀ env ∈ envelopes (sentBy .caller steps), ∀ old ∈ L', old.id ≠ env.id := by
  obtain ⟨heard, heard', hclient, hserver, hsaid, hsaid'⟩ := hrun.talks hchan
  have hheard' : heard' <+: sentBy .caller steps := ⟨z.2.inbox, hsaid⟩
  constructor
  · intro env henv old hold
    obtain ⟨s, heard₂, said₂, hheard₂, hrel, -, -, chan', x, hexchanged, hid⟩ :=
      hserver.promised.of_mem (mem_envelopes.1 henv)
    obtain ⟨rfl, hagreed⟩ := agreed_of_exchanged hclient.promised hexchanged hrel hheard₂ hheard'
    exact hagreed.symm.fresh hL' hL hid hold
  · intro env henv old hold
    -- the client was asked for it
    obtain ⟨s₁, heard₁, said₁, hheard₁, -, m, hwant, hid⟩ :=
      hclient.promised.of_mem (mem_envelopes.1 henv)
    have hwant' : .want m ∈ sentBy .server steps :=
      hsaid' ▸ List.mem_append_left z.1.inbox (hheard₁.subset hwant)
    obtain ⟨s, heard₂, said₂, hheard₂, hrel, -, -, chan', x, hexchanged, hlacked⟩ :=
      hserver.promised.of_mem hwant'
    obtain ⟨rfl, hagreed⟩ := agreed_of_exchanged hclient.promised hexchanged hrel hheard₂ hheard'
    exact hagreed.fresh hL hL' (hlacked _ hid) hold

/-- **Nothing is lost, sent twice or miscounted.** Where the client has
finished, each has taken all that the other sent, no envelope of one id
went the same way twice, the client's count is that of the envelopes it was
sent, and the completion gives the number that went either way. -/
theorem session_counts (hchan : ChannelRef.parse channel = .ok chan)
    (hrun : Conversing channel d d' steps z) {received : ℕ}
    (hdone : z.1.task = .ret (.done received)) :
    z.1.inbox = [] ∧ z.2.inbox = [] ∧
      ((envelopes (sentBy .server steps)).map Envelope.id).Nodup ∧
      ((envelopes (sentBy .caller steps)).map Envelope.id).Nodup ∧
      received = (envelopes (sentBy .server steps)).length ∧
      .response (.complete (envelopes (sentBy .server steps)).length
        (envelopes (sentBy .caller steps)).length) ∈ sentBy .server steps := by
  obtain ⟨x, before, s, h⟩ := hrun.completed hchan hdone
  have hdown : envelopes (sentBy .server steps) = envelopes before := by
    rw [h.sent, envelopes_append]
    exact List.append_nil _
  rw [hdown]
  refine ⟨h.callerInbox, h.serverInbox, h.uploading.sentOnce, h.uploading.receivedOnce,
    h.taken.counted.symm, ?_⟩
  rw [h.sent]
  exact List.mem_append_right _ List.mem_cons_self

end Session

/-! ## A message is fetched -/

section Fetching

open Proc Dialogue Simulated

attribute [local instance] simulated

/-- The node that is asked has the message. -/
noncomputable def servingDir : Dir := (historyDir [] []).appended [] greeting

/-- The node that serves it. -/
noncomputable def servingNode : Datadir := (historyNode [] []).put general.fullName servingDir

/-- Its record. -/
noncomputable def served₁ : List ScannedEnvelope := [newRecord [] greeting]

/-- Its index is in step with its log. -/
theorem logOk_servingDir : LogOk (servingDir.log.getD []) servingDir.index served₁ :=
  LogOk.empty.append (verify_envelope general 1 hello) (by simp)

/-- The serving node holds two empty histories. -/
theorem holds_servingNode : Holds general servingDir [] [] servingNode :=
  ⟨getElem?_put_self _ _ _, ⟨_, rfl⟩, holds_emptyNode.readable⟩

/-- Under an empty history everybody reads and writes. -/
theorem readChannelPolicy_of_holds {dir : Dir} {d : Datadir} (h : Holds general dir [] [] d)
    (hsome : dir.policyLog.isSome = true) : readChannelPolicy general d = .ok .default := by
  rw [readChannelPolicy_of_getElem? h.there, readDirPolicy, if_pos hsome, h.policyLog]
  rfl

/-- The client's node, with the index written and both caches. -/
noncomputable def askingDir : Dir :=
  appendModerationRecords [] {} (appendPolicyRecords [] .default ((historyDir [] []).indexed []))

/-- The node that asks, behind the histories. -/
noncomputable def askingNode : Datadir := (historyNode [] []).put general.fullName askingDir

/-- Of two writes of the channel the second counts. -/
theorem put_put_historyNode (dir dir' : Dir) :
    ((historyNode [] []).put general.fullName dir).put general.fullName dir' =
      (historyNode [] []).put general.fullName dir' :=
  put_put _ _ _ _

/-- The client takes in the empty policy update. -/
theorem takePolicySync_readyNode :
    (Initiator.takePolicySync general ⟨"policy_sync", "update", []⟩).solo (readyHistoryNode [] []) =
      ([], .ok (), (historyNode [] []).put general.fullName
        (appendPolicyRecords [] .default ((historyDir [] []).indexed []))) := by
  have hready := holds_readyHistoryNode (P := []) derivePolicy_nil deriveModerationUnder_nil
  obtain ⟨log, hopen⟩ := hready.openLog
  have hexec := exec_appendRemotePolicyHistory hopen hready.policyLog derivePolicy_nil rfl
  rw [Initiator.takePolicySync, if_neg (by simp), solo_bailIf_bind (by simp),
    solo_call_bind hexec, solo_pure]
  unfold readyHistoryNode
  rw [put_put_historyNode]
  rfl

/-- Its histories are empty as before. -/
theorem holds_policyNode :
    Holds general (appendPolicyRecords [] .default ((historyDir [] []).indexed [])) [] []
      ((historyNode [] []).put general.fullName
        (appendPolicyRecords [] .default ((historyDir [] []).indexed []))) := by
  have hready := holds_readyHistoryNode (P := []) derivePolicy_nil deriveModerationUnder_nil
  exact ⟨getElem?_put_self _ _ _, ⟨_, rfl⟩, hready.readable.policyAppended derivePolicy_nil _⟩

/-- The client takes in the empty moderation update. -/
theorem takeModerationSync_policyNode :
    (Initiator.takeModerationSync general ⟨"moderation_sync", "update", []⟩).solo
        ((historyNode [] []).put general.fullName
          (appendPolicyRecords [] .default ((historyDir [] []).indexed []))) =
      ([], .ok (), askingNode) := by
  have hholds := holds_policyNode
  obtain ⟨log, hopen⟩ := hholds.openLog
  have hexec := exec_appendRemoteModerationHistory hopen hholds.moderationLog
    ((hholds.deriveModeration []).trans deriveModerationUnder_nil) rfl
  rw [Initiator.takeModerationSync, if_neg (by simp), solo_bailIf_bind (by simp),
    solo_call_bind hexec, solo_pure, put_put_historyNode]
  rfl

/-- The node that then asks for envelopes still holds empty histories. -/
theorem holds_askingNode : Holds general askingDir [] [] askingNode :=
  ⟨getElem?_put_self _ _ _, ⟨_, rfl⟩,
    holds_policyNode.readable.moderationAppended deriveModerationUnder_nil {}⟩

/-- The server sends both updates and no keys: the channel is public. -/
theorem solo_reconcile_servingNode :
    (Responder.reconcile general (statusOf [] []) epoch.nonces).solo servingNode =
      ([.policySync ⟨"policy_sync", "update", []⟩,
        .moderationSync ⟨"moderation_sync", "update", []⟩, .keySync ⟨"key_sync", "", []⟩],
        .ok (.keySync general (statusOf [] []) .default none), servingNode) := by
  have hpolicy := readChannelPolicy_of_holds holds_servingNode rfl
  have hmember : Member general (statusOf [] []).requester servingNode := ⟨.default, hpolicy, rfl⟩
  have htakePolicy : (Responder.takePolicy general [] (statusOf [] []).policyEvents).solo
      servingNode = ([], .ok (), servingNode) := by
    rw [Responder.takePolicy]
    simp [idPrefix, statusOf]
  have htakeModeration : (Responder.takeModeration general (statusOf [] []).moderationEvents).solo
      servingNode = ([], .ok (), servingNode) := by
    have hnone : deriveModeration general (statusOf [] []).moderationEvents servingNode = .ok {} :=
      (holds_servingNode.deriveModeration []).trans rfl
    rw [Responder.takeModeration, solo_ask_bind hnone,
      solo_ask_bind holds_servingNode.moderationHistory]
    simp [idPrefix, statusOf]
  have hkeys : (Responder.sendKeys general (statusOf [] []) epoch.nonces).solo servingNode =
      ([.keySync ⟨"key_sync", "", []⟩], .ok (.keySync general (statusOf [] []) .default none),
        servingNode) := by
    rw [Responder.sendKeys, solo_ask_bind hpolicy]
    rfl
  rw [Responder.reconcile,
    solo_bind_of_ok (Responder.solo_admitRequester holds_servingNode hmember),
    solo_bind_of_ok htakePolicy,
    solo_bind_of_ok (Responder.solo_sendPolicy holds_servingNode hmember),
    solo_bind_of_ok htakeModeration,
    solo_bind_of_ok (Responder.solo_sendModeration holds_servingNode), hkeys]
  rfl

/-! ### The messages -/

/-- All that is served is in one bucket. -/
theorem bucket_served (i : ℕ) : bucket (served₁.map (·.envelope.idBytes)) i =
    if greetingBucket = i then [greetingId] else [] := by
  show ([greetingId].filter fun id => bucketOf id == i) = _
  by_cases h : greetingBucket = i
  · rw [if_pos h, List.filter_cons_of_pos (by simpa [greetingBucket, greetingId] using h)]
    rfl
  · rw [if_neg h, List.filter_cons_of_neg (by simpa [greetingBucket, greetingId] using h)]
    rfl

/-- What is read through the index is read of that one record. -/
theorem readIndexed_servingNode {α : Type} {f : Bytes → Index → Except Error α} {a : α}
    {d : Datadir} {dir : Dir} (hthere : d.channels[general.fullName]? = some dir)
    (hlog : dir.log = servingDir.log) (hok : LogOk (dir.log.getD []) dir.index served₁)
    (hf : f (envelopeCodec.record greeting)
      (indexOf served₁ (envelopeCodec.record greeting).length) = .ok a) :
    ∃ d' dir', (readIndexed general f).exec d = (.ok a, d') ∧
      d'.channels[general.fullName]? = some dir' ∧ dir'.log = servingDir.log ∧
      LogOk (dir'.log.getD []) dir'.index served₁ := by
  have hsome : dir.log = some (envelopeCodec.record greeting) := hlog
  rw [hsome, Option.getD_some] at hok
  have hexec := readIndexed_exec (f := f) hthere hsome hok
  rw [hf] at hexec
  refine ⟨_, _, hexec, getElem?_put_self _ _ _, ?_, ?_⟩
  · simp only [Dir.indexed, hsome, Option.getD_some]
    rfl
  · simp only [Dir.indexed, hsome, Option.getD_some]
    exact hok.ensured

/-- An empty inventory differs in that bucket. -/
theorem differingChunks_served {sums : List ChunkSummary} {n : ℕ}
    (h : indexSummaries (indexOf served₁ n) = .ok sums) :
    Responder.differingChunks sums [] = [greetingBucket] := by
  have hnone (i : ℕ) : Responder.chunkHash sums i = none ↔ i ≠ greetingBucket := by
    have hsum := summed_of_index h i
    rw [logIds_scanned, bucketHash, bucket_served] at hsum
    rw [hsum]
    by_cases hi : greetingBucket = i
    · rw [if_pos hi, if_neg (List.cons_ne_nil _ _)]
      exact iff_of_false (Option.some_ne_none _) fun hne => hne hi.symm
    · rw [if_neg hi, if_pos rfl]
      exact iff_of_true rfl (Ne.symm hi)
  have hone : (((sums ++ []).map ChunkSummary.index).toFinset.filter fun index =>
      Responder.chunkHash sums index ≠ Responder.chunkHash [] index) = {greetingBucket} := by
    ext i
    have hempty : Responder.chunkHash [] i = none := rfl
    rw [Finset.mem_filter, Finset.mem_singleton, List.mem_toFinset, List.append_nil, hempty,
      ne_eq, hnone, not_not, and_iff_right_iff_imp]
    intro hi
    by_contra hmem
    exact (hnone i).1 (chunkHash_of_not_mem hmem) hi
  unfold Responder.differingChunks
  rw [hone, Finset.sort_singleton]

/-- So the server lists it, and asks for the client's. -/
theorem exists_diffChunks_servingNode : ∃ d' dir',
    (Responder.diffChunks general (statusOf [] []).chunks).solo servingNode =
      ([.chunkDiff ⟨"chunk_diff", [⟨greetingBucket, [greeting.id]⟩], [greetingBucket]⟩],
        .ok (.chunkIds general [⟨greetingBucket, [greeting.id]⟩] [greetingBucket]), d') ∧
      d'.channels[general.fullName]? = some dir' ∧ dir'.log = servingDir.log ∧
      LogOk (dir'.log.getD []) dir'.index served₁ := by
  have hindexed : indexSummaries (indexOf served₁ (envelopeCodec.record greeting).length) = .ok _ :=
    indexSummaries_indexOf _
  have hdiffering := differingChunks_served hindexed
  have hlisted : indexChunkIds (indexOf served₁ (envelopeCodec.record greeting).length)
      greetingBucket = .ok [greeting.id] := by
    rw [indexChunkIds_indexOf, bucket_served, if_pos rfl]
    rfl
  obtain ⟨d₁, dir₁, hsummaries, hthere₁, hlog₁, hok₁⟩ := readIndexed_servingNode
    (f := fun _ db => indexSummaries db) holds_servingNode.there rfl logOk_servingDir hindexed
  obtain ⟨d₂, dir₂, hids, hthere₂, hlog₂, hok₂⟩ := readIndexed_servingNode
    (f := fun _ db => indexChunkIds db greetingBucket) hthere₁ hlog₁ hok₁ hlisted
  have hids' : (chunkIds general greetingBucket).exec d₁ = (.ok [greeting.id], d₂) := hids
  have hsummaries' : (chunkSummaries general).exec servingNode = _ := hsummaries
  have hread : (readChunks general [greetingBucket]).solo d₁ =
      ([], .ok [⟨greetingBucket, [greeting.id]⟩], d₂) := by
    rw [readChunks, solo_call_bind hids']
    rfl
  refine ⟨d₂, dir₂, ?_, hthere₂, hlog₂, hok₂⟩
  have hchecked : Responder.checkSummaries (statusOf [] []).chunks = .ok () := by
    simp [Responder.checkSummaries, statusOf]
  have hchunks : (statusOf [] []).chunks = [] := rfl
  rw [Responder.diffChunks, solo_call_bind hsummaries', solo_except_bind hchecked]
  dsimp only
  rw [hchunks, hdiffering, solo_bind_of_ok hread]
  rfl

/-- The envelope is read by its id. -/
theorem readMessageById_servingNode {d : Datadir} {dir : Dir}
    (hthere : d.channels[general.fullName]? = some dir) (hlog : dir.log = servingDir.log)
    (hok : LogOk (dir.log.getD []) dir.index served₁) :
    ∃ d' dir', (readMessageById general greeting.id).exec d = (.ok greeting, d') ∧
      d'.channels[general.fullName]? = some dir' ∧ dir'.log = servingDir.log := by
  suffices h : ∃ d' dir', (readMessageById general greeting.id).exec d = (.ok greeting, d') ∧
      d'.channels[general.fullName]? = some dir' ∧ dir'.log = servingDir.log ∧
      LogOk (dir'.log.getD []) dir'.index served₁ by
    obtain ⟨d', dir', hread, hthere', hlog', -⟩ := h
    exact ⟨d', dir', hread, hthere', hlog'⟩
  refine readIndexed_servingNode hthere hlog hok ?_
  have htable : (indexOf served₁ (envelopeCodec.record greeting).length).messages[greeting.id]? =
      some (0, (envelopeCodec.record greeting).length) := by
    simp [indexOf, messageTable, served₁, newRecord]
  have hverify : greeting.verify = .ok () := verify_envelope general 1 hello
  simp only [bind_eq_ok, orBail_eq_ok, readIndexedEnvelope, bailIf_eq_ok, context_eq_ok, pure_eq_ok]
  refine ⟨_, htable, ?_⟩
  rw [List.drop_zero, List.take_length]
  have hread : readEnvelope (envelopeCodec.record greeting).dropLast = some greeting := by
    rw [Ndjson.Codec.record, List.dropLast_concat]
    exact envelopeCodec.read_write greeting
  refine ⟨(), not_not.2 rfl, (), not_not.2 List.getLast?_concat, greeting, hread, (),
    not_or.2 ⟨not_not.2 rfl, not_not.2 rfl⟩, (), hverify, rfl⟩

/-- The client has nothing of it, and is sent the envelope. -/
theorem exchangeIds_servingNode {d : Datadir} {dir : Dir}
    (hthere : d.channels[general.fullName]? = some dir) (hlog : dir.log = servingDir.log)
    (hok : LogOk (dir.log.getD []) dir.index served₁) :
    ∃ d' dir', (Responder.conduct.resume
      (.chunkIds general [⟨greetingBucket, [greeting.id]⟩] [greetingBucket])
      (some (.chunkIds ⟨"chunk_ids", [⟨greetingBucket, []⟩]⟩)) epoch).solo d =
        ([.want ⟨"want", []⟩, .envelope greeting, .response (.complete 1 0)], .ok .done, d') ∧
      d'.channels[general.fullName]? = some dir' ∧ dir'.log = servingDir.log := by
  obtain ⟨d', dir', hread, hthere', hlog'⟩ := readMessageById_servingNode hthere hlog hok
  refine ⟨d', dir', ?_, hthere', hlog'⟩
  have hbatch : Responder.checkBatch [greetingBucket] [⟨greetingBucket, []⟩] = .ok () :=
    bind_eq_ok.2 ⟨(), bailIf_eq_ok.2 (by simp), rfl⟩
  have hserver : Responder.inventory [⟨greetingBucket, [greeting.id]⟩] = {greeting.id} := rfl
  have hclient : Responder.inventory [⟨greetingBucket, []⟩] = ∅ := rfl
  have hsend : epoch.sendOrder.list {greeting.id} = [greeting.id] := Finset.sort_singleton _ _
  have hwant : epoch.wantOrder.list ∅ = [] := Finset.sort_empty _
  have hfew : ¬ ((∅ : Finset String).card > maxDifferingIds ∨
      ({greeting.id} : Finset String).card > maxDifferingIds) := by
    rw [Finset.card_singleton, Finset.card_empty]
    decide
  have hbatchRead : Responder.readChunkBatch
      (.text (Frame.chunkIds ⟨"chunk_ids", [⟨greetingBucket, []⟩]⟩).decoded) =
        .ok (some ⟨"chunk_ids", [⟨greetingBucket, []⟩]⟩) := rfl
  show (Responder.resume (.chunkIds general [⟨greetingBucket, [greeting.id]⟩] [greetingBucket])
    (.text (Frame.chunkIds ⟨"chunk_ids", [⟨greetingBucket, []⟩]⟩).decoded, epoch)).solo d = _
  rw [Responder.resume, solo_except_bind hbatchRead]
  dsimp only
  unfold Responder.exchangeIds
  rw [solo_except_bind hbatch]
  simp only [hclient, hserver, Finset.sdiff_empty, Finset.empty_sdiff, hwant, hsend]
  rw [solo_bailIf_bind hfew, solo_emit_bind]
  have hmessages : (sendMessages general [greeting.id]).solo d =
      ([.envelope greeting], .ok (), d') := by
    rw [sendMessages, solo_call_bind hread, solo_emit_bind]
    rfl
  rw [solo_bind_of_ok hmessages]
  rfl

/-! ### The session -/

/-- What the client has read before it connects. -/
theorem solo_start_client : (Initiator.start general.fullName 0).solo (historyNode [] []) =
    ([], .ok (.challenge general [] [] [] (identity 3) 0), readyHistoryNode [] []) := by
  have hready := holds_readyHistoryNode (P := []) derivePolicy_nil deriveModerationUnder_nil
  have hidentity : context "load identity for synchronization"
      (loadIdentity (readyHistoryNode [] [])) = .ok (identity 3) := rfl
  rw [Initiator.start, solo_except_bind (ChannelRef.parse_fullName general),
    solo_call_bind (chunkSummaries_historyNode [] []), solo_ask_bind hready.policyHistory,
    solo_ask_bind hready.moderationHistory, solo_ask_bind hidentity, solo_pure]

/-- The server opens with a challenge. -/
theorem solo_start_server (d : Datadir) :
    (Responder.start (identity 4) (List.replicate 32 0) (-60)).solo d =
      ([.challenge welcome], .ok (.status welcome), d) := by
  have hmade : makeAuthChallenge (identity 4) "/sync" (List.replicate 32 0) (-60) = .ok welcome :=
    makeAuthChallenge_ok.2 ⟨_, signBytes_identity 4 _, rfl⟩
  rw [Responder.start, solo_except_bind hmade]
  rfl

/-- The client answers the challenge. -/
theorem solo_challenged : (Initiator.resume (.challenge general [] [] [] (identity 3) 0)
    (.text (Frame.challenge welcome).decoded, unpinned)).solo (readyHistoryNode [] []) =
      ([.status (statusOf [] [])], .ok (.frames general (identity 3) 0),
        readyHistoryNode [] []) := by
  have hread : Initiator.readChallenge (.text (Frame.challenge welcome).decoded) = .ok welcome :=
    rfl
  have hanswer : Initiator.answerChallenge general [] [] [] (identity 3) 0 welcome unpinned =
      .ok (statusOf [] []) :=
    Initiator.answerChallenge_ok.2 ⟨none, _, rfl, verify_welcome, signBytes_identity 3 _, rfl⟩
  rw [Initiator.resume, solo_except_bind hread, solo_except_bind hanswer, solo_emit_bind, solo_pure]

/-- What the client does with a frame, and nobody in between. -/
theorem solo_handle {f : Frame} {command : Initiator.Command} {n : ℕ} {d : Datadir}
    (hcommand : Initiator.classify f.decoded = command) :
    (Initiator.conduct.resume (.frames general (identity 3) n) (some f) unpinned).solo d =
      (Initiator.handle general (identity 3) n unpinned.nonces command).solo d := by
  subst hcommand
  rfl

/-- The client fetches the message. -/
theorem exists_appendMessage_askingNode : ∃ d d',
    (chunkIds general greetingBucket).exec askingNode = (.ok [], d) ∧
      (appendMessage general greeting).exec d = (.ok greeting.id, d') ∧
      LogHolds general d' [greeting] := by
  have hlog : askingDir.log = some [] := rfl
  have hok : LogOk [] askingDir.index [] := LogOk.empty.ensured
  have hids := readIndexed_exec (f := fun _ db => indexChunkIds db greetingBucket)
    holds_askingNode.there hlog hok
  have hnone : (indexOf [] 0).chunkMembers[greetingBucket]? = none := by
    simp [indexOf, getElem?_chunkTable, bucket]
  have hread : indexChunkIds (indexOf [] 0) greetingBucket = .ok [] := by
    rw [indexChunkIds, hnone]
    rfl
  rw [List.length_nil, hread] at hids
  have hholds : Holds general (askingDir.indexed []) [] []
      (askingNode.put general.fullName (askingDir.indexed [])) :=
    holds_askingNode.same ⟨⟨rfl, rfl, rfl⟩, rfl⟩ (getElem?_put_self _ _ _)
  have hauth : authorizeAppend general greeting.sender
      (askingNode.put general.fullName (askingDir.indexed [])) = .ok () :=
    authorizeAppend_ok.2 ⟨.default, readChannelPolicy_of_holds hholds rfl, rfl⟩
  have hexec := appendMessage_exec_allowed hholds.there LogOk.empty.ensured rfl
    (verify_envelope general 1 hello) hauth
  rw [if_neg (by rw [indexContains_indexOf]; simp)] at hexec
  exact ⟨_, _, hids, hexec, _, getElem?_put_self _ _ _, (List.append_nil _).symm⟩

/-- The keys of a public channel are none. -/
theorem solo_takeKeySync_askingNode :
    (Initiator.handle general (identity 3) 0 unpinned.nonces (.keySync ⟨"key_sync", "", []⟩)).solo
      askingNode = ([.keySync ⟨"key_sync", (identity 3).publicKey, []⟩],
        .ok (.frames general (identity 3) 0), askingNode) := by
  have hpolicy := readChannelPolicy_of_holds holds_askingNode rfl
  have hoffers : validateKeyOffers ⟨"key_sync", "", []⟩ = .ok () := rfl
  have htake : (Initiator.takeKeySync general (identity 3) ⟨"key_sync", "", []⟩
      unpinned.nonces).solo askingNode =
        ([.keySync ⟨"key_sync", (identity 3).publicKey, []⟩], .ok (), askingNode) := by
    unfold Initiator.takeKeySync
    rw [solo_except_bind hoffers, solo_ask_bind hpolicy]
    rfl
  rw [Initiator.handle, solo_bind_of_ok htake]
  rfl

/-- The empty key frame leads on to the buckets. -/
theorem solo_keySync_servingNode {d' : Datadir} {ms : List Frame} {r : Except Error Responder.Await}
    (hdiff : (Responder.diffChunks general (statusOf [] []).chunks).solo servingNode =
      (ms, r, d')) :
    (Responder.conduct.resume (.keySync general (statusOf [] []) .default none)
      (some (.keySync ⟨"key_sync", (identity 3).publicKey, []⟩)) epoch).solo servingNode =
        (ms, r, d') := by
  have hread : Responder.readKeySync
      (.text (Frame.keySync ⟨"key_sync", (identity 3).publicKey, []⟩).decoded) =
        .ok (some ⟨"key_sync", (identity 3).publicKey, []⟩) := rfl
  have haccept : (Responder.acceptKeys general (statusOf [] []).requester .default none
      ⟨"key_sync", (identity 3).publicKey, []⟩).solo servingNode = ([], .ok (), servingNode) := rfl
  show (Responder.resume (.keySync general (statusOf [] []) .default none)
    (.text (Frame.keySync ⟨"key_sync", (identity 3).publicKey, []⟩).decoded, epoch)).solo _ = _
  rw [Responder.resume, solo_except_bind hread]
  dsimp only
  rw [solo_bind_of_ok haccept, hdiff]
  rfl

/-- The client lists what it has of the bucket. -/
theorem solo_chunkDiff {d d' : Datadir} {ids : List String}
    (hids : (chunkIds general greetingBucket).exec d = (.ok ids, d')) :
    (Initiator.handle general (identity 3) 0 unpinned.nonces
      (.chunkDiff ⟨"chunk_diff", [⟨greetingBucket, [greeting.id]⟩], [greetingBucket]⟩)).solo d =
        ([.chunkIds ⟨"chunk_ids", [⟨greetingBucket, ids⟩]⟩], .ok (.frames general (identity 3) 0),
          d') := by
  have hread : (readChunks general [greetingBucket]).solo d =
      ([], .ok [⟨greetingBucket, ids⟩], d') := by
    rw [readChunks, solo_call_bind hids]
    rfl
  have htake : (Initiator.takeChunkDiff general
      ⟨"chunk_diff", [⟨greetingBucket, [greeting.id]⟩], [greetingBucket]⟩).solo d =
        ([.chunkIds ⟨"chunk_ids", [⟨greetingBucket, ids⟩]⟩], .ok (), d') := by
    rw [Initiator.takeChunkDiff, solo_bind_of_ok hread]
    rfl
  rw [Initiator.handle, solo_bind_of_ok htake]
  rfl

/-- It counts the envelope once it is appended. -/
theorem solo_envelope {d d' : Datadir} {id : String}
    (happend : (appendMessage general greeting).exec d = (.ok id, d')) :
    (Initiator.handle general (identity 3) 0 unpinned.nonces (.envelope (some greeting))).solo d =
      ([], .ok (.frames general (identity 3) 1), d') := by
  have hverify : context s!"verify downloaded envelope {greeting.id}" greeting.verify = .ok () :=
    context_eq_ok.2 (verify_envelope general 1 hello)
  have htake : (Initiator.takeEnvelope general (some greeting)).solo d = ([], .ok (), d') := by
    have hsome (k : Envelope → Session Unit) :
        orBail ["deserialize envelope"] (some greeting) >>= k = k greeting := rfl
    have hhere : ¬ greeting.channel ≠ general.fullName := not_not.2 rfl
    rw [Initiator.takeEnvelope, hsome, solo_bailIf_bind hhere,
      solo_except_bind hverify, solo_call_bind happend, solo_pure]
  rw [Initiator.handle, solo_bind_of_ok htake]
  rfl

/-- Nothing is wanted of the client. -/
theorem solo_want (d : Datadir) :
    (Initiator.handle general (identity 3) 0 unpinned.nonces (.want ⟨"want", []⟩)).solo d =
      ([], .ok (.frames general (identity 3) 0), d) := rfl

/-- The client ends with the completion. -/
theorem solo_complete {d : Datadir} :
    (Initiator.handle general (identity 3) 1 unpinned.nonces .complete).solo d =
      ([], .ok (.done 1), d) := rfl

/-- **The two fetch one envelope**, step by step: then both logs have it. -/
theorem exists_fetched : ∃ whos z,
    Run (Turn Initiator.conduct Responder.conduct)
      (Dialogue.start (Initiator.start general.fullName 0)
        (Responder.start (identity 4) (List.replicate 32 0) (-60)) (historyNode [] []) servingNode)
      whos z ∧ z.1.stands = .ok (.done 1) ∧ z.2.stands = .ok .done ∧
        LogHolds general z.1.state [greeting] ∧ LogHolds general z.2.state [greeting] := by
  obtain ⟨d₁, dir₁, hdiff, hthere, hlog, hok⟩ := exists_diffChunks_servingNode
  obtain ⟨d₂, dir₂, hexchange, hthere₂, hlog₂⟩ := exchangeIds_servingNode hthere hlog hok
  obtain ⟨d₃, d₄, hids, happend, hasked⟩ := exists_appendMessage_askingNode
  -- the two begin
  have hstart : Dialogue.start (Initiator.start general.fullName 0)
      (Responder.start (identity 4) (List.replicate 32 0) (-60)) (historyNode [] []) servingNode =
        (⟨readyHistoryNode [] [], .ok (.challenge general [] [] [] (identity 3) 0),
          [.challenge welcome]⟩, ⟨servingNode, .ok (.status welcome), []⟩) := by
    rw [Dialogue.start, solo_start_client, solo_start_server]
  have hbegin : Run (Turn Initiator.conduct Responder.conduct) _ [] _ :=
    Run.nil (Dialogue.start (Initiator.start general.fullName 0)
      (Responder.start (identity 4) (List.replicate 32 0) (-60)) (historyNode [] []) servingNode)
  nth_rewrite 2 [hstart] at hbegin
  have hstatus := hbegin.snoc (.caller (takes_message unpinned id solo_challenged))
  -- the histories and the keys
  have hchecked : Responder.checkStatus welcome (statusOf [] []) epoch.now epoch.now' =
      .ok general := checkStatus_statusOf (Nat.zero_le _) (Nat.zero_le _) derivePolicy_nil
  have hreconcile := Responder.solo_resume_status (d := servingNode) rfl hchecked
  rw [solo_reconcile_servingNode] at hreconcile
  have hreconciled := hstatus.snoc (.server (takes_message epoch id hreconcile))
  have hpolicy := hreconciled.snoc (.caller (takes_message unpinned id
    ((solo_handle (Initiator.classify_policySync rfl (by simp) (by simp))).trans
      (solo_bind_of_ok takePolicySync_readyNode))))
  have hmoderation := hpolicy.snoc (.caller (takes_message unpinned id
    ((solo_handle (Initiator.classify_moderationSync rfl (by simp) (by simp))).trans
      (solo_bind_of_ok takeModerationSync_policyNode))))
  have hkeys := hmoderation.snoc (.caller (takes_message unpinned id
    ((solo_handle rfl).trans solo_takeKeySync_askingNode)))
  -- the ids of the bucket
  have hdiffered := hkeys.snoc (.server (takes_message epoch id (solo_keySync_servingNode hdiff)))
  have hlisted := hdiffered.snoc (.caller (takes_message unpinned id
    ((solo_handle rfl).trans (solo_chunkDiff hids))))
  have hexchanged := hlisted.snoc (.server (takes_message epoch id hexchange))
  -- the message
  have hwanted := hexchanged.snoc (.caller (takes_message unpinned id
    ((solo_handle rfl).trans (solo_want d₃))))
  have htaken := hwanted.snoc (.caller (takes_message unpinned id
    ((solo_handle rfl).trans (solo_envelope happend))))
  have hcompleted := htaken.snoc (.caller (takes_message unpinned id
    ((solo_handle rfl).trans solo_complete)))
  have hserved : dir₂.log.getD [] = envelopeCodec.records [greeting] := by
    rw [hlog₂]
    exact (List.append_nil _).symm
  exact ⟨_, _, hcompleted, rfl, rfl, hasked, dir₂, hthere₂, hserved⟩

/-- The session that fetches it, step by step. -/
theorem exists_conversing_fetched : ∃ steps z,
    Conversing general.fullName (historyNode [] []) servingNode steps z ∧
      z.1.task = .ret (.done 1) ∧ z.2.task = .ret .done ∧
        LogHolds general z.1.state [greeting] ∧ LogHolds general z.2.state [greeting] := by
  obtain ⟨whos, z, hrun, hdone, hdone', hasked, hserved⟩ := exists_fetched
  obtain ⟨steps, hsteps⟩ : ∃ steps, Run (Step Initiator.conduct Responder.conduct Beside Beside)
      (Duplex.start (Initiator.start general.fullName 0)
        (Responder.start (identity 4) (List.replicate 32 0) (-60)) (historyNode [] []) servingNode)
      steps (asSide z.1, asSide z.2) := exists_run_of_turns hrun
  exact ⟨steps, _, ⟨0, identity 4, List.replicate 32 0, -60, hsteps⟩,
    congrArg Proc.ofExcept hdone, congrArg Proc.ofExcept hdone', hasked, hserved⟩

/-- The client's log is empty and in order. -/
theorem orderly_historyNode : Orderly general (historyNode [] []) [] where
  dir := ⟨_, holds_emptyNode.there, rfl, [], LogOk.empty, rfl⟩
  channel := nofun

/-- The server's has the one envelope. -/
theorem orderly_servingNode : Orderly general servingNode [greeting] where
  dir := ⟨_, holds_servingNode.there, (List.append_nil _).symm, served₁, logOk_servingDir, rfl⟩
  channel env henv := by rw [List.mem_singleton.1 henv]; rfl

/-- What a log with the envelope hashes of its buckets. -/
theorem pastBuckets_greeting : pastBuckets [greeting] ⊆ {[], greetingId} := by
  rintro b ⟨T, i, hT, rfl⟩
  rcases List.prefix_cons_iff.1 hT with rfl | ⟨rest, rfl, hrest⟩
  · exact .inl rfl
  · obtain rfl := List.prefix_nil.1 hrest
    exact (pack_bucket_replicate 1 greetingId i).imp id fun h => h.trans (List.append_nil _)

/-- No two of them have one hash. -/
theorem injOn_pastBuckets_greeting :
    Set.InjOn blake3 (pastBuckets [greeting] ∪ pastBuckets [greeting]) := by
  rw [Set.union_self]
  have hne : Simulated.hash [] ≠ Simulated.hash greetingId := by decide +kernel
  refine Set.InjOn.mono pastBuckets_greeting ?_
  rintro a (rfl | rfl) b (rfl | rfl) hab
  · rfl
  · exact absurd hab hne
  · exact absurd hab.symm hne
  · rfl

/-- The law for these two: the client's log comes to have the envelope. -/
theorem session_converges_fetched : ∃ steps z F F',
    Conversing general.fullName (historyNode [] []) servingNode steps z ∧
      z.1.task = .ret (.done 1) ∧ Orderly general z.1.state F ∧ Orderly general z.2.state F' ∧
      [greeting] <+: F' ∧ ∀ env ∈ [greeting], env.id ∈ F.map Envelope.id := by
  obtain ⟨steps, z, hrun, hdone, -, hasked, hserved⟩ := exists_conversing_fetched
  obtain ⟨F, F', hF, hF', -, hgrown', hboth⟩ := session_converges
    (ChannelRef.parse_fullName general) hrun hdone orderly_historyNode orderly_servingNode
  rw [hF.logHolds.unique hasked, hF'.logHolds.unique hserved] at hboth
  refine ⟨steps, z, F, F', hrun, hdone, hF, hF', hgrown', fun env henv => ?_⟩
  rw [hF.logHolds.unique hasked]
  exact (hboth injOn_pastBuckets_greeting env henv).1

/-- The client, which has nothing, sends nothing that is there. -/
theorem session_sends_what_is_missing_fetched : ∃ steps z,
    Conversing general.fullName (historyNode [] []) servingNode steps z ∧
      ∀ env ∈ envelopes (sentBy .caller steps), ∀ old ∈ [greeting], old.id ≠ env.id := by
  obtain ⟨steps, z, hrun, -⟩ := exists_conversing_fetched
  exact ⟨steps, z, hrun, (session_sends_what_is_missing (ChannelRef.parse_fullName general) hrun
    orderly_historyNode.held orderly_servingNode.held).2⟩

/-- One envelope was counted. -/
theorem session_counts_fetched : ∃ steps z,
    Conversing general.fullName (historyNode [] []) servingNode steps z ∧ z.1.inbox = [] ∧
      z.2.inbox = [] ∧ (envelopes (sentBy .server steps)).length = 1 := by
  obtain ⟨steps, z, hrun, hdone, -⟩ := exists_conversing_fetched
  obtain ⟨hcaller, hserver, -, -, hcount, -⟩ :=
    session_counts (ChannelRef.parse_fullName general) hrun hdone
  exact ⟨steps, z, hrun, hcaller, hserver, hcount.symm⟩

end Fetching

end Embernet
