import Embernet.Sync.Reconciliation
/-!
# Uploads — a session takes what it asked for, once

`run_sync` asks for the ids that the client has and the node has not, and
takes envelopes until all of them have arrived. `Tally` is what the frames
of a session say of that: the channel, the ids asked for, the envelope
that came last and the envelopes taken. `Exact` is what the next step may
be at a tally. Between the steps the others may write the files as they
like.
-/

set_option autoImplicit false

namespace Embernet

open Proc Primitives Responder

/-! ## The record of a session -/

/-- A step of a session, with the files before it and after it. -/
structure Logged where
  before : Datadir
  entry : Entry Call Frame (Incoming × Ambient)
  after : Datadir

/-- A node's files, and what the session on it has done. -/
structure Ledger where
  dir : Datadir
  record : List Logged

/-- The session works on the files, and its steps are recorded. -/
def ledger : Host Datadir Call Frame (Incoming × Ambient) Ledger where
  view := Ledger.dir
  act l returned d g := ⟨d, g.record ++ [⟨g.dir, .act l returned, d⟩]⟩
  emit m g := ⟨g.dir, g.record ++ [⟨g.dir, .send m, g.dir⟩]⟩
  receive i g := ⟨g.dir, g.record ++ [⟨g.dir, .receive i, g.dir⟩]⟩

/-- The channel a frame asks for. -/
def askedFor : Incoming → Option ChannelRef
  | .text t => t.status.bind fun status => (ChannelRef.parse status.channel).toOption
  | _ => none

/-- The envelope a frame holds. -/
def uploadOf : Incoming → Option Envelope
  | .text t => t.envelope
  | _ => none

/-- What a session's frames say: the channel that was asked for first, the
ids of the want frame, the envelope in the last frame that came, and the
envelopes that were appended, the last one first. -/
structure Tally where
  channel : Option ChannelRef := none
  want : Option (List String) := none
  arrived : Option Envelope := none
  uploaded : List Envelope := []

namespace Tally

/-- The ids that were appended. -/
def ids (t : Tally) : List String := t.uploaded.map Envelope.id

/-- The tally after one entry. -/
def step (t : Tally) : Entry Call Frame (Incoming × Ambient) → Tally
  | .receive (i, _) => { t with channel := t.channel.or (askedFor i), arrived := uploadOf i }
  | .send (.want m) => { t with want := some m.ids }
  | .act .appendMessage true => { t with uploaded := t.arrived.toList ++ t.uploaded }
  | _ => t

/-- The envelope that came last may be appended: it was asked for and has
not come before, it is of this channel, and it verifies. -/
structure Due [Primitives] (t : Tally) (chan : ChannelRef) (env : Envelope) : Prop where
  channel : t.channel = some chan
  arrived : t.arrived = some env
  wanted : ∃ want, t.want = some want ∧ env.id ∈ want
  fresh : env.id ∉ t.ids
  here : env.channel = chan.fullName
  verified : env.verify = .ok ()

/-- The upload is over: every id that was asked for has come, and no
other. -/
def Over (t : Tally) (received : ℕ) : Prop :=
  ∃ want, t.want = some want ∧ want.Nodup ∧ t.ids.Perm want ∧ received = want.length

/-- **What the next step may be.** An append is of the envelope that came
last, and that one is due; a response says that the upload is over, and
how many came. -/
def Exact [Primitives] (t : Tally) (s : Logged) : Prop :=
  match s.entry with
  | .act .appendMessage returned => ∃ chan env, t.Due chan env ∧
      ∃ r, (appendMessage chan env).exec s.before = (r, s.after) ∧ r.isOk = returned
  | .send (.response m) => ∃ sent received, m = .complete sent received ∧ t.Over received
  | _ => True

end Tally

/-- What a record says. -/
def tally (record : List Logged) : Tally := record.foldl (fun t s => t.step s.entry) {}

/-- The tally goes on entry by entry. -/
@[simp] theorem tally_concat (record : List Logged) (s : Logged) :
    tally (record ++ [s]) = (tally record).step s.entry := by
  simp [tally, List.foldl_append]

/-- Where the upload stands: `wanted` is what is left of the ids that were
asked for, and `received` how many have come. -/
structure Tally.Stands (t : Tally) (chan : ChannelRef) (wanted : Finset String) (received : ℕ) :
    Prop where
  channel : t.channel = some chan
  nodup : t.ids.Nodup
  counted : received = t.ids.length
  asked : ∃ want, t.want = some want ∧ want.Nodup ∧ t.ids ⊆ want ∧
    wanted = want.toFinset \ t.ids.toFinset

section Steps

variable [Primitives]

/-- Every step of a record is exact. -/
def AllExact (record : List Logged) : Prop :=
  ∀ before s after, record = before ++ s :: after → (tally before).Exact s

omit [Primitives] in
/-- When the ids are asked for, all of them are open. -/
theorem Tally.stands_start {t : Tally} {chan : ChannelRef} {want : List String}
    (hchannel : t.channel = some chan) (hnil : t.uploaded = []) (hwant : t.want = some want)
    (hnodup : want.Nodup) : t.Stands chan want.toFinset 0 where
  channel := hchannel
  nodup := by simp [Tally.ids, hnil]
  counted := by simp [Tally.ids, hnil]
  asked := ⟨want, hwant, hnodup, by simp [Tally.ids, hnil], by simp [Tally.ids, hnil]⟩

omit [Primitives] in
/-- **The upload is over** when nothing is wanted. -/
theorem Tally.Stands.over {t : Tally} {chan : ChannelRef} {received : ℕ}
    (h : t.Stands chan ∅ received) : t.Over received := by
  obtain ⟨want, hwant, hnodup, hsubset, hleft⟩ := h.asked
  have hperm : t.ids.Perm want := by
    rw [List.perm_ext_iff_of_nodup h.nodup hnodup]
    intro id
    constructor
    · intro hid
      exact hsubset hid
    · intro hid
      by_contra hmissing
      have hmem : id ∈ want.toFinset \ t.ids.toFinset := by simp [hid, hmissing]
      rw [← hleft] at hmem
      exact absurd hmem (Finset.notMem_empty id)
  exact ⟨want, hwant, hnodup, hperm, h.counted.trans hperm.length_eq⟩

omit [Primitives] in
/-- **An envelope that is taken** is one that was wanted, and is no
more. -/
theorem Tally.Stands.take {t : Tally} {chan : ChannelRef} {wanted : Finset String} {received : ℕ}
    (h : t.Stands chan wanted received) {env : Envelope} (harrived : t.arrived = some env)
    (hid : env.id ∈ wanted) :
    (t.step (.act .appendMessage true)).Stands chan (wanted.erase env.id) (received + 1) := by
  obtain ⟨want, hwant, hnodup, hsubset, rfl⟩ := h.asked
  obtain ⟨hmem, hfresh⟩ : env.id ∈ want ∧ env.id ∉ t.ids := by simpa using hid
  have hids : (t.step (.act .appendMessage true)).ids = env.id :: t.ids := by
    simp [Tally.step, Tally.ids, harrived]
  refine ⟨h.channel, ?_, ?_, want, hwant, hnodup, ?_, ?_⟩
  · rw [hids]
    exact List.nodup_cons.2 ⟨hfresh, h.nodup⟩
  · rw [hids, List.length_cons, h.counted]
  · rw [hids]
    exact List.cons_subset.2 ⟨hmem, hsubset⟩
  · rw [hids]
    ext id
    simp only [Finset.mem_erase, Finset.mem_sdiff, List.mem_toFinset, List.mem_cons]
    tauto

/-! ## Steps that take nothing -/

/-- The others write the files as they like, and every step is exact. -/
def exacting : Contract Call Frame Ledger where
  rely g h := h.record = g.record
  assume _ _ := True
  guarantee _ g h := ∃ s, h.record = g.record ++ [s] ∧ (tally g.record).Exact s
  rely_refl _ := rfl
  rely_trans h₁ h₂ := h₂.trans h₁

/-- A process that appends nothing, and asks for nothing and reports
nothing. -/
structure Plain {α : Type} (p : Session α) : Prop where
  calls : p.Each fun _ l _ => l ≠ .appendMessage
  sends : p.Sends fun m => (∀ want, m ≠ .want want) ∧ ∀ response, m ≠ .response response

section Plain

variable {α β : Type} {p : Session α} {f : α → Session β} {g : Ledger} {t : Tally}

omit [Primitives] in
/-- Two plain parts make one. -/
theorem Plain.bind (hp : Plain p) (hf : ∀ a, Plain (f a)) : Plain (p >>= f) :=
  ⟨hp.calls.bind fun a => (hf a).calls, hp.sends.bind fun a => (hf a).sends⟩

omit [Primitives] in
/-- To return is plain. -/
theorem plain_pure (a : α) : Plain (pure a : Session α) := ⟨trivial, trivial⟩

omit [Primitives] in
/-- Every call but an append is plain. -/
theorem plain_call {l : Call} {x : StoreM α} (hl : l ≠ .appendMessage) :
    Plain (Proc.call l x : Session α) :=
  ⟨each_call hl, fun _ => trivial⟩

omit [Primitives] in
/-- And every frame but a request for envelopes and the completion. -/
theorem plain_emit {m : Frame} (hwant : ∀ want, m ≠ .want want)
    (hresponse : ∀ response, m ≠ .response response) : Plain (Proc.emit m : Session Unit) :=
  ⟨each_emit m, ⟨hwant, hresponse⟩, trivial⟩

omit [Primitives] in
/-- A check that fails sends nothing. -/
theorem plain_except (r : Except Error α) : Plain (liftM r : Session α) :=
  ⟨each_except r, sends_except r⟩

omit [Primitives] in
/-- Nor does one that is written as a condition. -/
theorem plain_bailIf {c : Prop} [Decidable c] {e : Error} :
    Plain (Embernet.bailIf c e : Session Unit) :=
  ⟨each_bailIf, sends_bailIf⟩

/-- **Such a process is exact**, and leaves the tally as it is. -/
theorem wp_plain (hp : Plain p) (ht : tally g.record = t) :
    wp ledger exacting p (fun _ g => tally g.record = t) g := by
  refine wp_each_sends (I := fun g : Ledger => tally g.record = t) hp.calls hp.sends ?_ ?_ ?_ ht
  · intro g h hg hrely
    rw [show h.record = g.record from hrely]
    exact hg
  · intro β l x g hl hg
    have hstep : (tally g.record).step (.act l (x.exec (ledger.view g)).1.isOk) =
        tally g.record := by
      cases l <;> first | rfl | exact absurd rfl hl
    refine ⟨⟨_, rfl, ?_⟩, ?_⟩
    · cases l <;> trivial
    · show tally (g.record ++ [_]) = t
      rw [tally_concat, hstep, hg]
  · rintro m g ⟨hwant, hresponse⟩ hg
    have hstep : (tally g.record).step (.send m) = tally g.record := by
      cases m <;> first | rfl | exact absurd rfl (hwant _)
    refine ⟨⟨_, rfl, ?_⟩, ?_⟩
    · cases m <;> first | trivial | exact absurd rfl (hresponse _)
    · show tally (g.record ++ [_]) = t
      rw [tally_concat, hstep, hg]

/-- A plain part leaves the tally as it was for what follows. -/
theorem wp_plain_bind {Q : Except Error β → Ledger → Prop} (hp : Plain p)
    (hf : ∀ a g, tally g.record = t → wp ledger exacting (f a) Q g)
    (herror : ∀ e g, Q (.error e) g) (ht : tally g.record = t) :
    wp ledger exacting (p >>= f) Q g := by
  refine wp_bind (wp_mono ?_ (wp_plain hp ht))
  rintro (e | a) g hg
  · exact herror e g
  · exact hf a g hg

end Plain

namespace Responder

variable {chan : ChannelRef} {requester : String}

/-- Reading buckets is plain. -/
theorem plain_readChunks (indices : List ℕ) : Plain (readChunks chan indices) := by
  induction indices with
  | nil => exact plain_pure _
  | cons index indices ih =>
    exact (plain_call (by nofun)).bind fun _ => ih.bind fun _ => plain_pure _

/-- Sending envelopes is plain: it is uploads that count. -/
theorem plain_sendMessages (ids : List String) : Plain (sendMessages chan ids) := by
  induction ids with
  | nil => exact plain_pure _
  | cons id ids ih =>
    exact (plain_call (by nofun)).bind fun _ =>
      (plain_emit (by nofun) (by nofun)).bind fun _ => ih

/-- Taking in a policy is plain. -/
theorem plain_takePolicy (localPolicy remote : List PolicyEvent) :
    Plain (takePolicy chan localPolicy remote) := by
  unfold takePolicy
  dsimp only
  split
  · exact (plain_call (by nofun)).bind fun _ => (plain_emit (by nofun) (by nofun)).bind fun _ =>
      ⟨trivial, trivial⟩
  split
  · exact (plain_call (by nofun)).bind fun _ => plain_pure _
  · exact plain_pure _

/-- Sending the policy back is plain. -/
theorem plain_sendPolicy : Plain (sendPolicy chan requester) :=
  (plain_call (by nofun)).bind fun _ => plain_bailIf.bind fun _ =>
    (plain_call (by nofun)).bind fun _ => plain_emit (by nofun) (by nofun)

/-- Taking in a moderation is plain. -/
theorem plain_takeModeration (remote : List ModerationEvent) :
    Plain (takeModeration chan remote) := by
  refine (plain_call (by nofun)).bind fun _ => (plain_call (by nofun)).bind fun _ => ?_
  dsimp only
  split
  · exact (plain_call (by nofun)).bind fun _ => (plain_emit (by nofun) (by nofun)).bind fun _ =>
      ⟨trivial, trivial⟩
  split
  · exact (plain_call (by nofun)).bind fun _ => plain_pure _
  · exact plain_pure _

/-- Offering keys is plain. -/
theorem plain_sendKeys (status : StatusMessage) (nonces : ℕ → Bytes) :
    Plain (sendKeys chan status nonces) := by
  have hidentity (policy : ChannelPolicy) : Plain (serverIdentity policy) := by
    unfold serverIdentity
    split
    · exact (plain_call (by rintro ⟨⟩)).bind fun _ => plain_bailIf.bind fun _ => plain_pure _
    · exact plain_pure _
  have hoffers (identity : Option KeypairFile) :
      Plain (keyOffers chan status.requester nonces identity) := by
    cases identity with
    | none => exact plain_pure _
    | some identity => exact plain_call (by rintro ⟨⟩)
  exact (plain_call (by rintro ⟨⟩)).bind fun policy => plain_bailIf.bind fun _ =>
    (hidentity policy).bind fun identity => (hoffers identity).bind fun _ =>
      (plain_emit (by rintro _ ⟨⟩) (by rintro _ ⟨⟩)).bind fun _ => plain_pure _

/-- **From the status packet to the keys** nothing is taken. -/
theorem plain_reconcile (status : StatusMessage) (nonces : ℕ → Bytes) :
    Plain (reconcile chan status nonces) :=
  ((plain_call (by nofun)).bind fun _ => (plain_call (by nofun)).bind fun _ =>
      plain_bailIf.bind fun _ => plain_pure _).bind fun _ =>
    (plain_takePolicy _ _).bind fun _ => plain_sendPolicy.bind fun _ =>
      (plain_takeModeration _).bind fun _ =>
        ((plain_call (by nofun)).bind fun _ => plain_emit (by nofun) (by nofun)).bind fun _ =>
          plain_sendKeys _ _

/-- Accepting keys is plain. -/
theorem plain_acceptKeys (policy : ChannelPolicy) (identity : Option KeypairFile) (m : KeySync) :
    Plain (acceptKeys chan requester policy identity m) := by
  refine plain_bailIf.bind fun _ => plain_bailIf.bind fun _ => (plain_except _).bind fun _ => ?_
  cases identity with
  | none => exact plain_bailIf
  | some identity => exact (plain_call (by nofun)).bind fun _ => plain_pure _

/-- Comparing the buckets is plain. -/
theorem plain_diffChunks (clientChunks : List ChunkSummary) :
    Plain (diffChunks chan clientChunks) :=
  (plain_call (by nofun)).bind fun _ => (plain_except _).bind fun _ =>
    (plain_readChunks _).bind fun _ => (plain_emit (by nofun) (by nofun)).bind fun _ => plain_pure _

end Responder

/-! ## Whole sessions -/

/-- What holds where a session waits. -/
def StandsAt : Except Error Await → Ledger → Prop
  | .ok (.status _), g => tally g.record = {}
  | .ok (.keySync chan _ _ _), g | .ok (.chunkIds chan _ _), g =>
    (tally g.record).channel = some chan ∧ (tally g.record).uploaded = []
  | .ok (.upload chan _ wanted received), g => (tally g.record).Stands chan wanted received
  | _, _ => True

section Waits

variable {chan : ChannelRef} {g : Ledger}

/-- The report, or another turn. -/
theorem wp_finishUpload {sent received : ℕ} {wanted : Finset String}
    (h : (tally g.record).Stands chan wanted received) :
    wp ledger exacting (finishUpload chan sent wanted received) StandsAt g := by
  unfold finishUpload
  split
  · next hempty =>
    subst hempty
    intro h' hrely _
    have hrecord : h'.record = g.record := hrely
    exact ⟨⟨_, rfl, sent, received, rfl, hrecord ▸ h.over⟩, fun _ _ => trivial⟩
  · intro h' hrely
    have hrecord : h'.record = g.record := hrely
    exact (hrecord ▸ h : (tally h'.record).Stands chan wanted received)

/-- What is asked for. -/
theorem wp_exchangeIds {serverChunks : List ChunkIds} {differing : List ℕ} {batch : ChunkBatch}
    {ambient : Ambient} (hchannel : (tally g.record).channel = some chan)
    (hnil : (tally g.record).uploaded = []) :
    wp ledger exacting (exchangeIds chan serverChunks differing batch ambient) StandsAt g := by
  unfold exchangeIds
  cases checkBatch differing batch.chunks with
  | error e => exact fun _ _ => trivial
  | ok _ =>
    rw [lift_ok_bind]
    dsimp only
    rw [Proc.bailIf_bind]
    split
    · exact fun _ _ => trivial
    rw [Proc.emit_bind]
    intro h hrely _
    have hrecord : h.record = g.record := hrely
    refine ⟨⟨_, rfl, trivial⟩, ?_⟩
    -- the want frame is sent, and with it the upload stands at its start
    refine wp_plain_bind (plain_sendMessages _) (fun _ g' hg' => wp_finishUpload ?_)
      (fun _ _ => trivial) rfl
    rw [hg']
    show (tally (h.record ++ [_])).Stands _ _ _
    rw [tally_concat, hrecord]
    exact Tally.stands_start hchannel hnil rfl (ambient.wantOrder.nodup _)

/-- **An upload.** The envelope has come in the last frame. -/
theorem wp_acceptUpload {sent received : ℕ} {wanted : Finset String} {env : Envelope}
    (h : (tally g.record).Stands chan wanted received)
    (harrived : (tally g.record).arrived = some env) :
    wp ledger exacting (acceptUpload chan sent wanted received env) StandsAt g := by
  unfold acceptUpload
  rw [Proc.bailIf_bind]
  split
  · exact fun _ _ => trivial
  next hwanted =>
  rw [Proc.bailIf_bind]
  split
  · exact fun _ _ => trivial
  next hhere =>
  cases hverify : context s!"verify uploaded envelope {env.id}" env.verify with
  | error e => exact fun _ _ => trivial
  | ok _ =>
    rw [lift_ok_bind, Proc.call_bind]
    have hid : env.id ∈ wanted := not_not.1 hwanted
    have hdue : (tally g.record).Due chan env := by
      obtain ⟨want, hwant, -, -, hleft⟩ := h.asked
      obtain ⟨hmem, hfresh⟩ : env.id ∈ want ∧ env.id ∉ (tally g.record).ids := by
        simpa [hleft] using hid
      exact ⟨h.channel, harrived, ⟨want, hwant, hmem⟩, hfresh, not_not.1 hhere,
        context_eq_ok.1 hverify⟩
    refine wp_act (fun g' b t hrely _ hx => ?_) fun g' e t hrely _ hx => ?_
    · have hrecord : g'.record = g.record := hrely
      refine ⟨⟨_, rfl, chan, env, hrecord ▸ hdue, _, hx, rfl⟩, wp_finishUpload ?_⟩
      show (tally (g'.record ++ [_])).Stands _ _ _
      rw [tally_concat, hrecord]
      exact h.take harrived hid
    · have hrecord : g'.record = g.record := hrely
      exact ⟨⟨_, rfl, chan, env, hrecord ▸ hdue, _, hx, rfl⟩, fun _ _ => trivial⟩

end Waits

/-! ### From one point of waiting to the next -/

/-- A point of waiting at which nothing is asked for yet. -/
def Between (chan : ChannelRef) (a : Await) : Prop :=
  (∃ status policy identity, a = .keySync chan status policy identity) ∨
    ∃ chunks differing, a = .chunkIds chan chunks differing

/-- Up to there the session waits for no upload. -/
theorem returns_reconcile (chan : ChannelRef) (status : StatusMessage) (nonces : ℕ → Bytes) :
    (reconcile chan status nonces).Returns (Between chan) :=
  Returns.bind fun _ => Returns.bind fun _ => Returns.bind fun _ => Returns.bind fun _ =>
    Returns.bind fun _ => Returns.bind fun policy => Returns.bind fun _ =>
      Returns.bind fun identity => Returns.bind fun _ => Returns.bind fun _ =>
        .inl ⟨status, policy, identity, rfl⟩

/-- The comparison waits for no upload either. -/
theorem returns_diffChunks (chan : ChannelRef) (clientChunks : List ChunkSummary) :
    (diffChunks chan clientChunks).Returns (Between chan) :=
  Returns.bind fun summaries => Returns.bind fun _ => Returns.bind fun serverChunks =>
    Returns.bind fun _ => .inr ⟨serverChunks, differingChunks summaries clientChunks, rfl⟩

/-- A session that has taken nothing goes on to wait. -/
theorem standsAt_of_plain {p : Session Await} {g : Ledger} {chan : ChannelRef} (hp : Plain p)
    (hreturns : p.Returns (Between chan)) (hchannel : (tally g.record).channel = some chan)
    (hnil : (tally g.record).uploaded = []) : wp ledger exacting p StandsAt g := by
  refine wp_mono ?_ (wp_returns (wp_plain hp rfl) hreturns)
  rintro (e | a) h ⟨htally, ha⟩
  · trivial
  · have hstands : (tally h.record).channel = some chan ∧ (tally h.record).uploaded = [] := by
      rw [htally]
      exact ⟨hchannel, hnil⟩
    rcases ha a rfl with ⟨status, policy, identity, rfl⟩ | ⟨chunks, differing, rfl⟩
    · exact hstands
    · exact hstands

/-- What a status packet that is read asks for. -/
theorem askedFor_of_checkStatus {i : Incoming} {challenge : AuthChallenge} {status : StatusMessage}
    {now now' : Int64} {chan : ChannelRef} (hread : readStatus i = .ok status)
    (hcheck : checkStatus challenge status now now' = .ok chan) : askedFor i = some chan := by
  cases i with
  | other | failed | closed => exact nomatch hread
  | text t =>
    obtain ⟨status', hstatus, hrest⟩ := bind_eq_ok.1 hread
    obtain ⟨_, -, hpure⟩ := bind_eq_ok.1 hrest
    obtain rfl : status' = status := by simpa using hpure
    have hparse := (checkStatus_ok.1 hcheck).1.channel
    simp [askedFor, orBail_eq_ok.1 hstatus, hparse, Except.toOption]

omit [Primitives] in
/-- An envelope that is read has come in the frame. -/
theorem uploadOf_of_readUpload {i : Incoming} {env : Envelope}
    (h : readUpload i = .ok (some env)) : uploadOf i = some env := by
  cases i with
  | other | failed | closed => exact nomatch h
  | text t =>
    obtain ⟨_, ⟨⟩, hrest⟩ := bind_eq_ok.1 h
    obtain ⟨env', henv, hpure⟩ := bind_eq_ok.1 hrest
    obtain rfl : env' = env := by simpa using hpure
    exact orBail_eq_ok.1 henv

omit [Primitives] in
/-- To receive a frame is not yet to take it. -/
theorem Tally.Stands.receive {t : Tally} {chan : ChannelRef} {wanted : Finset String}
    {received : ℕ} (h : t.Stands chan wanted received) (i : Incoming × Ambient) :
    (t.step (.receive i)).Stands chan wanted received :=
  ⟨by simp [Tally.step, h.channel], h.nodup, h.counted, h.asked⟩

/-- **From one point of waiting to the next.** -/
theorem standsAt_resume (a : Await) (i : Incoming × Ambient) (g : Ledger)
    (h : StandsAt (.ok a) g) : wp ledger exacting (resume a i) StandsAt (ledger.receive i g) := by
  obtain ⟨i, ambient⟩ := i
  have htally : tally (ledger.receive (i, ambient) g).record =
      (tally g.record).step (.receive (i, ambient)) := tally_concat _ _
  cases a with
  | status challenge =>
    rw [resume]
    cases hread : readStatus i with
    | error e => exact fun _ _ => trivial
    | ok status =>
      rw [lift_ok_bind]
      cases hcheck : checkStatus challenge status ambient.now ambient.now' with
      | error e => exact fun _ _ => trivial
      | ok chan =>
        have hempty : tally g.record = {} := h
        refine standsAt_of_plain (plain_reconcile _ _)
          (returns_reconcile chan status ambient.nonces) ?_ ?_
        · rw [htally, hempty]
          exact askedFor_of_checkStatus hread hcheck
        · rw [htally, hempty]
          rfl
  | keySync chan status policy identity =>
    obtain ⟨hchannel, hnil⟩ := h
    have hchannel' : (tally (ledger.receive (i, ambient) g).record).channel = some chan := by
      rw [htally]
      simp [Tally.step, hchannel]
    have hnil' : (tally (ledger.receive (i, ambient) g).record).uploaded = [] := by
      rw [htally]
      exact hnil
    rw [resume]
    refine standsAt_of_plain ((plain_except _).bind fun sync => ?_) (Returns.bind fun sync => ?_)
      hchannel' hnil'
    · cases sync with
      | none => exact plain_pure _
      | some m => exact (plain_acceptKeys _ _ _).bind fun _ => plain_diffChunks _
    · cases sync with
      | none => exact .inl ⟨status, policy, identity, rfl⟩
      | some m => exact Returns.bind fun _ => returns_diffChunks _ _
  | chunkIds chan serverChunks differing =>
    obtain ⟨hchannel, hnil⟩ := h
    have hchannel' : (tally (ledger.receive (i, ambient) g).record).channel = some chan := by
      rw [htally]
      simp [Tally.step, hchannel]
    have hnil' : (tally (ledger.receive (i, ambient) g).record).uploaded = [] := by
      rw [htally]
      exact hnil
    rw [resume]
    cases readChunkBatch i with
    | error e => exact fun _ _ => trivial
    | ok batch =>
      cases batch with
      | none =>
        refine standsAt_of_plain (plain_pure _) ?_ hchannel' hnil'
        exact .inr ⟨serverChunks, differing, rfl⟩
      | some m => exact wp_exchangeIds hchannel' hnil'
  | upload chan sent wanted received =>
    have hstands : (tally (ledger.receive (i, ambient) g).record).Stands chan wanted received := by
      rw [htally]
      exact Tally.Stands.receive h _
    rw [resume]
    cases hread : readUpload i with
    | error e => exact fun _ _ => trivial
    | ok upload =>
      cases upload with
      | none =>
        intro h' hrely
        have hrecord : h'.record = (ledger.receive (i, ambient) g).record := hrely
        exact (hrecord ▸ hstands : (tally h'.record).Stands chan wanted received)
      | some env =>
        refine wp_acceptUpload hstands ?_
        rw [htally]
        exact uploadOf_of_readUpload hread
  | done => exact fun _ _ => trivial

/-- A session begins with nothing asked for. -/
theorem standsAt_start (identity : KeypairFile) (random : Bytes) (now : Int64) (d : Datadir) :
    wp ledger exacting (start identity random now) StandsAt ⟨d, []⟩ := by
  unfold start
  cases makeAuthChallenge identity "/sync" random now with
  | error e => exact fun _ _ => trivial
  | ok challenge =>
    rw [lift_ok_bind, Proc.emit_bind]
    intro h hrely _
    have hrecord : h.record = [] := hrely
    refine ⟨⟨_, rfl, trivial⟩, fun h' hrely' => ?_⟩
    have hrecord' : h'.record = h.record ++ [_] := hrely'
    show tally h'.record = {}
    rw [hrecord', hrecord]
    rfl

/-- One exact entry more. -/
theorem allExact_concat {record : List Logged} {s : Logged} (h : AllExact record)
    (hs : (tally record).Exact s) : AllExact (record ++ [s]) := by
  intro before s' after heq
  rcases List.eq_nil_or_concat after with rfl | ⟨init, last, rfl⟩
  · obtain ⟨rfl, hlast⟩ := List.append_inj' heq rfl
    cases hlast
    exact hs
  · rw [List.concat_eq_append, ← List.cons_append, ← List.append_assoc] at heq
    exact h before s' init (List.append_inj' heq rfl).1

/-- A step of a session whose files others write as they like. -/
abbrev LedgerStep :=
  SessionStep ledger (fun g h => h.record = g.record) (fun _ _ => True) resume

/-- **What a text frame does to an upload**: the envelope it holds was
wanted, and is no more, or the session fails. -/
theorem ends_upload {chan : ChannelRef} {sent received : ℕ} {wanted : Finset String}
    {text : Decoded} {ambient : Ambient} {r : Except Error Await}
    (h : Ends (resume (.upload chan sent wanted received) (.text text, ambient)) r) :
    (∃ e, r = .error e) ∨ ∃ env, text.envelope = some env ∧ env.id ∈ wanted ∧
      r = .ok (if wanted.erase env.id = ∅ then .done
        else .upload chan sent (wanted.erase env.id) (received + 1)) := by
  cases r with
  | error e => exact .inl ⟨e, rfl⟩
  | ok a =>
    obtain ⟨upload, hread, hrest⟩ := ends_bind h
    have hread := ends_except.1 hread
    cases upload with
    | none =>
      obtain ⟨_, ⟨⟩, hsome⟩ := bind_eq_ok.1 hread
      obtain ⟨env, -, hpure⟩ := bind_eq_ok.1 hsome
      cases hpure
    | some env =>
      have hchecked : Ends (acceptUpload chan sent wanted received env) (.ok a) := hrest
      unfold acceptUpload at hchecked
      rw [Proc.bailIf_bind] at hchecked
      split at hchecked
      · cases hchecked
      next hwanted =>
      refine .inr ⟨env, uploadOf_of_readUpload hread, not_not.1 hwanted, ?_⟩
      rw [Proc.bailIf_bind] at hchecked
      split at hchecked
      · cases hchecked
      obtain ⟨_, -, hfinish⟩ := ends_bind hchecked
      obtain ⟨_, -, hfinish⟩ := ends_bind hfinish
      unfold finishUpload at hfinish
      split at hfinish
      · next hempty =>
        rw [if_pos hempty]
        obtain ⟨_, -, hdone⟩ := ends_bind hfinish
        cases hdone
        rfl
      · next hleft =>
        rw [if_neg hleft]
        cases hfinish
        rfl

/-- What a step that is exact appends has not been appended. -/
theorem Tally.Exact.nodup {t : Tally} {s : Logged} (h : t.Exact s) (hnodup : t.ids.Nodup) :
    (t.step s.entry).ids.Nodup := by
  obtain ⟨before, entry, after⟩ := s
  cases entry with
  | receive i => exact hnodup
  | send m => cases m <;> exact hnodup
  | act l returned =>
    cases l with
    | appendMessage =>
      cases returned with
      | false => exact hnodup
      | true =>
        obtain ⟨chan, env, hdue, -⟩ := h
        show ((t.arrived.toList ++ t.uploaded).map Envelope.id).Nodup
        rw [hdue.arrived]
        exact List.nodup_cons.2 ⟨hdue.fresh, hnodup⟩
    | _ => exact hnodup

/-- **No id twice**: what was taken was open, and then no longer. -/
theorem AllExact.nodup {record : List Logged} (h : AllExact record) :
    (tally record).ids.Nodup := by
  induction record using List.reverseRecOn with
  | nil => exact List.nodup_nil
  | append_singleton record s ih =>
    have hbefore : AllExact record := by
      rintro before s' after rfl
      exact h before s' (after ++ [s]) (by simp)
    rw [tally_concat]
    exact (h record s [] rfl).nodup (ih hbefore)

/-- **Exact uploads**, in every session, whatever the client sends and the
others write. What is appended was asked for, verifies for the channel, and
is appended once; a report is made when all of it has come, and counts it;
and a text frame takes one of the ids that are left, or ends the
session. -/
theorem exact_uploads {identity : KeypairFile} {random : Bytes} {now : Int64} {d : Datadir}
    {evs : List (Option (Event Call Frame))} {t : Ledger × Session Await}
    (hrun : Run LedgerStep (⟨d, []⟩, start identity random now) evs t) :
    AllExact t.1.record ∧ (tally t.1.record).ids.Nodup ∧
      ∀ chan sent wanted received, t.2 = .ret (.upload chan sent wanted received) →
        (tally t.1.record).Stands chan wanted received ∧
          ∀ text ambient r,
            Ends (resume (.upload chan sent wanted received) (.text text, ambient)) r →
              (∃ e, r = .error e) ∨ ∃ env, text.envelope = some env ∧ env.id ∈ wanted ∧
                (wanted.erase env.id).card + 1 = wanted.card ∧
                r = .ok (if wanted.erase env.id = ∅ then .done
                  else .upload chan sent (wanted.erase env.id) (received + 1)) := by
  have hempty : AllExact [] := by
    intro before s after h
    simp at h
  obtain ⟨hwp, hexact⟩ := wp_sessionRun (C := exacting) (I := fun g => AllExact g.record)
    standsAt_resume (fun g h hg hrely => (show h.record = g.record from hrely) ▸ hg)
    (fun i g hg => allExact_concat hg trivial)
    (fun ev g h hg hstep => by
      obtain ⟨s, hs, hexact⟩ := hstep
      rw [hs]
      exact allExact_concat hg hexact)
    hrun (standsAt_start identity random now d) hempty
  refine ⟨hexact, hexact.nodup, fun chan sent wanted received hwaits => ?_⟩
  rw [hwaits] at hwp
  refine ⟨wp_ret hwp, fun text ambient r hends => ?_⟩
  rcases ends_upload hends with herror | ⟨env, henv, hid, hr⟩
  · exact .inl herror
  · exact .inr ⟨env, henv, hid, Finset.card_erase_add_one hid, hr⟩

/-- A part of a session that runs with nothing in between. -/
theorem run_ledger_solo {α : Type} {p : Session α} {f : α → Session Await} {ms : List Frame}
    {a : α} {d d' : Datadir} {record : List Logged} {s₀ : Ledger × Session Await}
    {evs : List (Option (Event Call Frame))} (h : p.solo d = (ms, .ok a, d'))
    (hrun : Run LedgerStep s₀ evs (⟨d, record⟩, p >>= f)) :
    ∃ evs' record', Run LedgerStep s₀ evs' (⟨d', record'⟩, f a) := by
  obtain ⟨es, -, halone⟩ :
      ∃ es : List (Entry Call Frame (Incoming × Ambient)), _ ∧ Alone p d es _ _ := exists_alone p d
  rw [h] at halone
  obtain ⟨evs', ⟨_, record'⟩, hrun', -, rfl⟩ :=
    halone.run_host (H := ledger) (K := fun _ => True) (fun _ _ _ _ _ => ⟨trivial, rfl⟩)
      (fun _ _ _ => ⟨trivial, rfl⟩) (fun _ _ _ => trivial) trivial rfl hrun
  exact ⟨evs', record', hrun'⟩

/-- The others write the files anew. -/
theorem run_rewritten {p : Session Await} {d : Datadir} (d' : Datadir) {record : List Logged}
    {s₀ : Ledger × Session Await} {evs : List (Option (Event Call Frame))}
    (hrun : Run LedgerStep s₀ evs (⟨d, record⟩, p)) :
    Run LedgerStep s₀ (evs ++ [none]) (⟨d', record⟩, p) :=
  hrun.snoc (.others rfl)

end Steps

/-! ## A message is uploaded -/

section Uploading

open Simulated

attribute [local instance] simulated

/-- The message that is uploaded, and its bucket. -/
def greeting : Envelope := envelope general 1 hello

/-- The bucket of the greeting. -/
def greetingBucket : ℕ := bucketOf (Simulated.hash hello.toJson.compact)

/-- The packet of a client that has a message. -/
def greetingStatus : StatusMessage :=
  { statusOf [] [] with chunks := [⟨greetingBucket, 1, hexEncode (List.replicate 32 0)⟩] }

/-- The packet with one bucket is taken. -/
theorem checkStatus_greetingStatus :
    checkStatus welcome greetingStatus epoch.now epoch.now' = .ok general := by
  have hchecked := checkStatus_ok.1
    (checkStatus_statusOf (P := []) (M := []) (Nat.zero_le _) (Nat.zero_le _) derivePolicy_nil)
  refine checkStatus_ok.2 ⟨{ hchecked.1 with chunks := ?_ }, hchecked.2⟩
  have hbucket : greetingBucket < merkleBucketCount := bucketOf_lt _
  rintro (hlength | hindex)
  · exact absurd hlength (by decide)
  · have hle : merkleBucketCount ≤ greetingBucket := by
      simpa only [greetingStatus, List.any_cons, List.any_nil, Bool.or_false, ge_iff_le,
        decide_eq_true_eq] using hindex
    exact absurd hbucket (not_lt.2 hle)

/-- The node that is asked, on which the channel is empty. -/
theorem holds_emptyNode : Holds general (historyDir [] []) [] [] (historyNode [] []) :=
  holds_historyNode derivePolicy_nil deriveModerationUnder_nil

/-- Under an empty history everybody may write. -/
theorem readChannelPolicy_emptyNode :
    readChannelPolicy general (historyNode [] []) = .ok .default := by
  rw [readChannelPolicy_of_getElem? holds_emptyNode.there]
  show (readPolicyLog general (historyDir [] []) >>= derivePolicy general) = _
  rw [holds_emptyNode.policyLog]
  rfl

/-- Under an empty history everybody may read. -/
theorem member_emptyNode : Member general (identity 3).publicKey (historyNode [] []) :=
  ⟨.default, readChannelPolicy_emptyNode, rfl⟩

/-- There is no policy to take in. -/
theorem solo_takePolicy_emptyNode :
    (takePolicy general [] []).solo (historyNode [] []) = ([], .ok (), historyNode [] []) := by
  rw [takePolicy]
  simp [idPrefix]

/-- There is no moderation to take in. -/
theorem solo_takeModeration_emptyNode :
    (takeModeration general []).solo (historyNode [] []) = ([], .ok (), historyNode [] []) := by
  have hnone : deriveModeration general [] (historyNode [] []) = .ok {} :=
    (holds_emptyNode.deriveModeration []).trans rfl
  rw [takeModeration, solo_ask_bind hnone, solo_ask_bind holds_emptyNode.moderationHistory]
  simp [idPrefix]

/-- The one hash of the packet is of 32 bytes. -/
theorem checkSummaries_greetingStatus : checkSummaries greetingStatus.chunks = .ok () := by
  simp [checkSummaries, greetingStatus]

/-- The bucket differs, since the node has none. -/
theorem differingChunks_greetingStatus :
    differingChunks [] greetingStatus.chunks = [greetingBucket] := by
  have hserver : chunkHash [] greetingBucket = none := rfl
  have hclient : chunkHash greetingStatus.chunks greetingBucket =
      some (hexEncode (List.replicate 32 0)) := by
    simp [chunkHash, greetingStatus]
  have hkept : ({greetingBucket} : Finset ℕ).filter (fun index =>
      chunkHash [] index ≠ chunkHash greetingStatus.chunks index) = {greetingBucket} := by
    rw [Finset.filter_singleton, hserver, hclient, if_pos nofun]
  show (Finset.filter _ {greetingBucket}).sort = _
  rw [hkept, Finset.sort_singleton]

/-- The node has nothing to list of the bucket. -/
theorem chunkIds_emptyNode (i : ℕ) :
    (chunkIds general i).exec (historyNode [] []) = (.ok [], readyHistoryNode [] []) := by
  have hexec := readIndexed_exec (f := fun _ db => indexChunkIds db i) holds_emptyNode.there rfl
    LogOk.empty
  have hnone : (indexOf [] 0).chunkMembers[i]? = none := by
    simp [indexOf, getElem?_chunkTable, bucket]
  have hread : indexChunkIds (indexOf [] 0) i = .ok [] := by
    rw [indexChunkIds, hnone]
    rfl
  rw [chunkIds, hexec, List.length_nil, hread]
  rfl

/-- **The message is asked for**, and nothing is sent in its place. -/
theorem exchangeIds_greeting :
    exchangeIds general [⟨greetingBucket, []⟩] [greetingBucket]
      ⟨"chunk_ids", [⟨greetingBucket, [greeting.id]⟩]⟩ epoch =
        Proc.send (.want ⟨"want", [greeting.id]⟩)
          (Proc.ret (.upload general 0 {greeting.id} 0)) := by
  have hdecode : hexDecode greeting.id = some (Simulated.hash hello.toJson.compact) :=
    hexDecode_hexEncode _
  have hid : checkChunkId greetingBucket greeting.id = .ok () := by
    simp only [checkChunkId, bind_eq_ok, orBail_eq_ok, bailIf_eq_ok]
    exact ⟨_, hdecode, by simp [length_hash, greetingBucket]⟩
  have hbatch : checkBatch [greetingBucket] [⟨greetingBucket, [greeting.id]⟩] = .ok () := by
    refine bind_eq_ok.2 ⟨(), bailIf_eq_ok.2 (by simp), ?_⟩
    show ((checkChunkId greetingBucket greeting.id >>= fun _ => pure ()) >>= fun _ => pure ()) = _
    rw [hid]
    rfl
  have hclient : inventory [⟨greetingBucket, [greeting.id]⟩] = {greeting.id} := rfl
  have hserver : inventory [⟨greetingBucket, []⟩] = ∅ := rfl
  have hwant : epoch.wantOrder.list {greeting.id} = [greeting.id] := Finset.sort_singleton _ _
  have hsend : epoch.sendOrder.list ∅ = [] := Finset.sort_empty _
  unfold exchangeIds
  rw [hbatch, lift_ok_bind]
  simp only [hclient, hserver, Finset.sdiff_empty, Finset.empty_sdiff, hwant, hsend]
  have hfew : ¬ (({greeting.id} : Finset String).card > maxDifferingIds ∨
      (∅ : Finset String).card > maxDifferingIds) := by
    rw [Finset.card_singleton, Finset.card_empty]
    decide
  have hwanted : [greeting.id].toFinset ≠ ∅ := Finset.singleton_ne_empty _
  rw [Proc.bailIf_bind, if_neg hfew, Proc.emit_bind]
  show Proc.send _ (finishUpload general 0 [greeting.id].toFinset 0) = _
  rw [finishUpload, if_neg hwanted]
  rfl

/-- The session comes to the upload of the message, on a node on which the
others have put the channel anew. -/
theorem exists_run_to_upload : ∃ evs record,
    Run LedgerStep (⟨historyNode [] [], []⟩, start (identity 4) (List.replicate 32 0) (-60)) evs
      (⟨newNode, record⟩, .ret (.upload general 0 {greeting.id} 0)) := by
  have hstart : start (identity 4) (List.replicate 32 0) (-60) =
      Proc.send (.challenge welcome) (Proc.ret (.status welcome)) := by
    have hmade : makeAuthChallenge (identity 4) "/sync" (List.replicate 32 0) (-60) = .ok welcome :=
      makeAuthChallenge_ok.2 ⟨_, signBytes_identity 4 _, rfl⟩
    rw [start, hmade]
    rfl
  have hresume : resume (.status welcome) (.text (Frame.status greetingStatus).decoded, epoch) =
      reconcile general greetingStatus epoch.nonces := by
    have hread : readStatus (.text (Frame.status greetingStatus).decoded) = .ok greetingStatus :=
      rfl
    rw [resume, hread, lift_ok_bind, checkStatus_greetingStatus, lift_ok_bind]
  have h₀ : Run LedgerStep
      (⟨historyNode [] [], []⟩, start (identity 4) (List.replicate 32 0) (-60)) []
      (⟨historyNode [] [], []⟩, Proc.send (.challenge welcome) (Proc.ret (.status welcome))) := by
    rw [← hstart]
    exact .nil _
  have h₁ := (h₀.snoc (.advance rfl trivial)).snoc
    (.receive (.text (Frame.status greetingStatus).decoded, epoch))
  rw [hresume, reconcile] at h₁
  obtain ⟨_, _, h₂⟩ := run_ledger_solo (solo_admitRequester holds_emptyNode member_emptyNode) h₁
  obtain ⟨_, _, h₃⟩ := run_ledger_solo solo_takePolicy_emptyNode h₂
  obtain ⟨_, _, h₄⟩ := run_ledger_solo (solo_sendPolicy holds_emptyNode member_emptyNode) h₃
  obtain ⟨_, _, h₅⟩ := run_ledger_solo solo_takeModeration_emptyNode h₄
  obtain ⟨_, _, h₆⟩ := run_ledger_solo (solo_sendModeration holds_emptyNode) h₅
  have hpolicy : (ask .readChannelPolicy (readChannelPolicy general) : Session _).solo
      (historyNode [] []) = ([], .ok .default, historyNode [] []) := by
    rw [ask, solo_call, Op.exec_query, readChannelPolicy_emptyNode]
  rw [sendKeys] at h₆
  obtain ⟨_, _, h₇⟩ := run_ledger_solo hpolicy h₆
  -- the channel is public, so no keys are offered
  have hkeys := (h₇.snoc (.advance rfl trivial)).snoc
    (.receive (.text (Frame.keySync ⟨"key_sync", (identity 3).publicKey, []⟩).decoded, epoch))
  have haccept : resume (.keySync general greetingStatus .default none)
      (.text (Frame.keySync ⟨"key_sync", (identity 3).publicKey, []⟩).decoded, epoch) =
        diffChunks general greetingStatus.chunks := rfl
  rw [haccept, diffChunks] at hkeys
  have hsummaries : (Proc.call .chunkSummaries (chunkSummaries general) : Session _).solo
      (historyNode [] []) = ([], .ok [], readyHistoryNode [] []) := by
    rw [solo_call, chunkSummaries_historyNode]
  obtain ⟨_, _, h₈⟩ := run_ledger_solo hsummaries hkeys
  rw [checkSummaries_greetingStatus, lift_ok_bind, differingChunks_greetingStatus] at h₈
  have hread : (readChunks general [greetingBucket]).solo (historyNode [] []) =
      ([], .ok [⟨greetingBucket, []⟩], readyHistoryNode [] []) := by
    rw [readChunks, solo_call_bind (chunkIds_emptyNode greetingBucket)]
    rfl
  obtain ⟨_, _, h₉⟩ := run_ledger_solo hread (run_rewritten (historyNode [] []) h₈)
  have hbatch := (h₉.snoc (.advance rfl trivial)).snoc
    (.receive (.text (Frame.chunkIds ⟨"chunk_ids", [⟨greetingBucket, [greeting.id]⟩]⟩).decoded,
      epoch))
  have hexchange : resume (.chunkIds general [⟨greetingBucket, []⟩] [greetingBucket])
      (.text (Frame.chunkIds ⟨"chunk_ids", [⟨greetingBucket, [greeting.id]⟩]⟩).decoded, epoch) =
        Proc.send (.want ⟨"want", [greeting.id]⟩)
          (Proc.ret (.upload general 0 {greeting.id} 0)) := by
    have hread : readChunkBatch
        (.text (Frame.chunkIds ⟨"chunk_ids", [⟨greetingBucket, [greeting.id]⟩]⟩).decoded) =
          .ok (some ⟨"chunk_ids", [⟨greetingBucket, [greeting.id]⟩]⟩) := rfl
    rw [resume, hread, lift_ok_bind]
    exact exchangeIds_greeting
  rw [hexchange] at hbatch
  exact ⟨_, _, run_rewritten newNode (hbatch.snoc (.advance rfl trivial))⟩

/-- The law for a session that takes the message and reports it. -/
theorem exact_uploads_greeting : ∃ evs t,
    Run LedgerStep (⟨historyNode [] [], []⟩, start (identity 4) (List.replicate 32 0) (-60)) evs t ∧
    t.2 = .ret .done ∧ t.1.dir = greetedNode ∧
    (∃ s ∈ t.1.record, s.entry = .send (.response (.complete 0 1))) ∧
    AllExact t.1.record ∧ (tally t.1.record).ids.Nodup := by
  obtain ⟨evs, record, hrun⟩ := exists_run_to_upload
  have hupload : resume (.upload general 0 {greeting.id} 0)
      (.text (Frame.envelope greeting).decoded, epoch) =
        (Proc.call .appendMessage (appendMessage general greeting) >>= fun _ =>
          finishUpload general 0 (({greeting.id} : Finset String).erase greeting.id) 1) := by
    have hread : readUpload (.text (Frame.envelope greeting).decoded) = .ok (some greeting) := rfl
    have hverify : context s!"verify uploaded envelope {greeting.id}" greeting.verify = .ok () :=
      context_eq_ok.2 (verify_envelope general 1 hello)
    have hwanted : ¬ greeting.id ∉ ({greeting.id} : Finset String) := by simp
    have hhere : ¬ greeting.channel ≠ general.fullName := fun h => h rfl
    rw [resume, hread, lift_ok_bind]
    show acceptUpload general 0 {greeting.id} 0 greeting = _
    rw [acceptUpload, Proc.bailIf_bind, if_neg hwanted, Proc.bailIf_bind, if_neg hhere, hverify,
      lift_ok_bind]
  have hempty : ({greeting.id} : Finset String).erase greeting.id = ∅ := by simp
  have htaken := hrun.snoc (.receive (.text (Frame.envelope greeting).decoded, epoch))
  rw [hupload, hempty] at htaken
  have happended : (Proc.call .appendMessage (appendMessage general greeting) : Session _).solo
      newNode = ([], .ok greeting.id, greetedNode) := by
    rw [solo_call]
    exact congrArg _ first_append
  obtain ⟨_, _, hreport⟩ := run_ledger_solo happended htaken
  have hdone := hreport.snoc (.advance rfl trivial)
  exact ⟨_, _, hdone, rfl, rfl, ⟨_, List.mem_append_right _ (List.mem_singleton_self _), rfl⟩,
    (exact_uploads hdone).1, (exact_uploads hdone).2.1⟩

end Uploading

end Embernet
