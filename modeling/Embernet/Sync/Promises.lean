import Embernet.Sync.Cascade
import Embernet.Sync.Readings
/-!
# Promises — what each side of a session may count on

Each side by itself, whatever it hears and whatever else runs on its node:
what it knows at each point at which it waits, and what it promises of
each frame that it sends. An inventory is of a log that had at least what
the log had when the session began; an envelope is one that was asked for;
and the completion is sent when all that was asked for has come in.

Both sides keep count besides: how many frames are still to come, and how
many envelopes have gone either way.
-/

set_option autoImplicit false

namespace Embernet

open Proc Primitives Duplex

/-! ## Counting frames -/

/-- The envelopes among frames. -/
def envelopes (frames : List Frame) : List Envelope :=
  frames.filterMap fun
    | .envelope env => some env
    | _ => none

/-- How many frames a client answers a frame with. -/
def replies : Frame → ℕ
  | .challenge _ | .keySync _ | .chunkDiff _ => 1
  | .want m => m.ids.length
  | _ => 0

/-- The replies that several frames ask for. -/
def repliesTo : List Frame → ℕ
  | [] => 0
  | f :: frames => replies f + repliesTo frames

@[simp] theorem envelopes_append (frames more : List Frame) :
    envelopes (frames ++ more) = envelopes frames ++ envelopes more := by
  simp [envelopes]

@[simp] theorem repliesTo_append (frames more : List Frame) :
    repliesTo (frames ++ more) = repliesTo frames + repliesTo more := by
  induction frames with
  | nil => simp [repliesTo]
  | cons f frames ih => simp [repliesTo, ih, Nat.add_assoc]

/-- The envelopes among the frames. -/
theorem mem_envelopes {frames : List Frame} {env : Envelope} :
    env ∈ envelopes frames ↔ .envelope env ∈ frames := by
  unfold envelopes
  rw [List.mem_filterMap]
  constructor
  · rintro ⟨f, hf, henv⟩
    cases f with
    | envelope m =>
      obtain rfl : m = env := Option.some.inj henv
      exact hf
    | _ => cases henv
  · intro h
    exact ⟨_, h, rfl⟩

/-- Frames of nothing but envelopes. -/
theorem envelopes_map (envs : List Envelope) : envelopes (envs.map Frame.envelope) = envs := by
  unfold envelopes
  rw [List.filterMap_map]
  exact List.filterMap_some

/-- Envelopes ask for no reply. -/
theorem repliesTo_map (envs : List Envelope) : repliesTo (envs.map Frame.envelope) = 0 := by
  induction envs with
  | nil => rfl
  | cons env envs ih => simpa [repliesTo, replies] using ih

/-! ## Frames by what they read as -/

section Decoded

variable {f : Frame}

/-- Of our own frames only a challenge reads as one. -/
theorem eq_of_decoded_challenge {m : AuthChallenge} (h : f.decoded.challenge = some m) :
    f = .challenge m := by
  cases f <;> simp_all [Frame.decoded]

/-- Only a packet reads as a packet. -/
theorem eq_of_decoded_status {m : StatusMessage} (h : f.decoded.status = some m) :
    f = .status m := by
  cases f <;> simp_all [Frame.decoded]

/-- Only a key frame reads as a key frame. -/
theorem eq_of_decoded_keySync {m : KeySync} (h : f.decoded.keySync = some m) :
    f = .keySync m := by
  cases f <;> simp_all [Frame.decoded]

/-- Only an envelope reads as an envelope. -/
theorem eq_of_decoded_envelope {env : Envelope} (h : f.decoded.envelope = some env) :
    f = .envelope env := by
  cases f <;> simp_all [Frame.decoded]

/-- An inventory is no envelope. -/
theorem ne_envelope_of_decoded_chunkBatch {m : ChunkBatch} (h : f.decoded.chunkBatch = some m) :
    envelopes [f] = [] := by
  cases f <;> simp_all [Frame.decoded, envelopes]

/-- What a frame is that the client takes for a command. -/
def Initiator.Command.Of : Initiator.Command → Frame → Prop
  | .complete, _ | .peerError _, _ | .envelope none, _ => True
  | .policySync _, f | .moderationSync _, f => replies f = 0 ∧ envelopes [f] = []
  | .keySync m, f => f = .keySync m
  | .chunkDiff m, f => f = .chunkDiff m
  | .want m, f => f = .want m
  | .envelope (some env), f => f = .envelope env

open Initiator in
/-- The client takes each for what it is. -/
theorem of_classify (f : Frame) : (classify f.decoded).Of f := by
  unfold classify
  split
  · trivial
  split
  · trivial
  -- the types are tried one after the other
  cases hpolicy : f.decoded.policySync.filter (·.msgType = "policy_sync") with
  | some m =>
    have := (Option.filter_eq_some_iff.1 hpolicy).1
    cases f <;> simp_all [Frame.decoded, Command.Of, replies, envelopes]
  | none =>
  cases hmoderation : f.decoded.moderationSync.filter (·.msgType = "moderation_sync") with
  | some m =>
    have := (Option.filter_eq_some_iff.1 hmoderation).1
    cases f <;> simp_all [Frame.decoded, Command.Of, replies, envelopes]
  | none =>
  cases hkey : f.decoded.keySync.filter (·.msgType = "key_sync") with
  | some m => exact eq_of_decoded_keySync (Option.filter_eq_some_iff.1 hkey).1
  | none =>
  cases hdiff : f.decoded.chunkDiff.filter (·.msgType = "chunk_diff") with
  | some m =>
    have := (Option.filter_eq_some_iff.1 hdiff).1
    cases f <;> simp_all [Frame.decoded, Command.Of]
  | none =>
  cases hwant : f.decoded.want.filter (·.msgType = "want") with
  | some m =>
    have := (Option.filter_eq_some_iff.1 hwant).1
    cases f <;> simp_all [Frame.decoded, Command.Of]
  | none =>
  cases henvelope : f.decoded.envelope with
  | none => trivial
  | some env => exact eq_of_decoded_envelope henvelope

end Decoded

variable [Primitives] {chan : ChannelRef} {d₀ : Datadir}

/-! ## Two parts of either session -/

section Shared

variable {given : Type} {promise : Frame → Talk Datadir Frame → Prop} {s : Datadir}
  {heard said : List Frame}

/-- Buckets that are read list what the log has by then. -/
theorem reaches_readChunks {indices : List ℕ} (hs : growing.rel d₀ s) :
    Reaches given growing promise (readChunks chan indices)
      (fun chunks g => growing.rel s g.state ∧ g.heard = heard ∧ g.said = said ∧
        chunks.map ChunkIds.index = indices ∧
        ∀ chunk ∈ chunks, Seen chan d₀ g.state fun T => Lists T chunk) ⟨s, heard, said⟩ := by
  induction indices generalizing s with
  | nil => exact .ret fun t hrel => ⟨hrel, rfl, rfl, rfl, by simp⟩
  | cons i is ih =>
    have hstored : Stored chan _ .chunkIds (chunkIds chan i) := .chunkIds i
    refine .bind (.call hstored.grows fun t ids u v hrel hexec hrel' => .bind ?_)
    have hseen := seen_chunkIds (growing.trans hs hrel) hexec hrel'
    have hgrown : growing.rel s v := by
      have hcall := hstored.grows t
      rw [hexec] at hcall
      exact growing.trans hrel (growing.trans hcall hrel')
    refine (ih (growing.trans hs hgrown)).mono ?_
    rintro rest ⟨w, heard', said'⟩ ⟨hw, rfl, rfl, rfl, hrest⟩
    refine .ret fun w' hw' => ⟨growing.trans hgrown (growing.trans hw hw'), rfl, rfl, rfl, ?_⟩
    intro chunk hchunk
    rcases List.mem_cons.1 hchunk with rfl | hchunk
    · exact hseen.later (growing.trans hw hw')
    · exact (hrest chunk hchunk).later hw'

/-- Envelopes are sent in the order of their ids. -/
theorem reaches_sendMessages {ids : List String}
    (hpromise : ∀ env t (envs : List Envelope), env.id ∈ ids → growing.rel s t →
      promise (.envelope env) ⟨t, heard, said ++ envs.map Frame.envelope⟩) :
    Reaches given growing promise (sendMessages chan ids)
      (fun _ g => growing.rel s g.state ∧ g.heard = heard ∧
        ∃ envs : List Envelope, envs.map Envelope.id = ids ∧
          g.said = said ++ envs.map Frame.envelope) ⟨s, heard, said⟩ := by
  induction ids generalizing s said with
  | nil => exact .ret fun t hrel => ⟨hrel, rfl, [], rfl, by simp⟩
  | cons id ids ih =>
    have hstored : Stored chan _ .readMessageById (readMessageById chan id) :=
      .readMessageById id
    refine .bind (.call hstored.grows fun t env u v hrel hexec hrel' => ?_)
    have hgrown : growing.rel s v := by
      have hcall := hstored.grows t
      rw [hexec] at hcall
      exact growing.trans hrel (growing.trans hcall hrel')
    have hid := id_of_readMessageById hexec
    refine .bind (.emit (fun w hw => ?_) fun w hw => ?_)
    · have hfirst := hpromise env w [] (by rw [hid]; exact List.mem_cons_self)
        (growing.trans hgrown hw)
      rwa [List.map_nil, List.append_nil] at hfirst
    refine (ih fun env' t' envs henv' ht' => ?_).mono ?_
    · rw [List.append_assoc, List.singleton_append, ← List.map_cons]
      exact hpromise env' t' (env :: envs) (List.mem_cons_of_mem _ henv')
        (growing.trans hgrown (growing.trans hw ht'))
    rintro _ ⟨t', heard', said'⟩ ⟨ht', rfl, envs, henvs, rfl⟩
    refine ⟨growing.trans hgrown (growing.trans hw ht'), rfl, env :: envs, ?_, ?_⟩
    · rw [List.map_cons, henvs, hid]
    · rw [List.map_cons, List.append_assoc, List.singleton_append]

end Shared

/-! ## The node that asks -/

namespace Initiator

/-- What the client promises of a frame. -/
def promise (chan : ChannelRef) (d₀ : Datadir) : Frame → Talk Datadir Frame → Prop
  | .status m, g => m.msgType = "status" ∧ m.channel = chan.fullName ∧
      Seen chan d₀ g.state fun T => Summed T m.chunks
  | .keySync _, _ => True
  | .chunkIds m, g => ∀ chunk ∈ m.chunks, Seen chan d₀ g.state fun T => Lists T chunk
  | .envelope env, g => ∃ m, .want m ∈ g.heard ∧ env.id ∈ m.ids
  | _, _ => False

/-- The client has taken every frame it heard: it has answered what asks
for an answer, and every envelope is in its log. -/
structure Taken (chan : ChannelRef) (d₀ : Datadir) (received : ℕ) (g : Talk Datadir Frame) :
    Prop where
  answered : g.said.length = repliesTo g.heard
  counted : (envelopes g.heard).length = received
  logged : ∀ env ∈ envelopes g.heard, Seen chan d₀ g.state fun T => env.id ∈ T.map Envelope.id

/-- What the client knows where it waits. -/
def stands (chan : ChannelRef) (d₀ : Datadir) : Await → Talk Datadir Frame → Prop
  | .challenge chan' chunks _ _ _ _, g => chan' = chan ∧ growing.rel d₀ g.state ∧
      g.heard = [] ∧ g.said = [] ∧ Seen chan d₀ g.state fun T => Summed T chunks
  | .frames chan' _ received, g => chan' = chan ∧ growing.rel d₀ g.state ∧
      Taken chan d₀ received g
  | .done received, g => ∃ before last, before ++ [last] <+: g.heard ∧
      classify last.decoded = .complete ∧ Taken chan d₀ received ⟨g.state, before, g.said⟩

variable {s : Datadir} {heard said : List Frame}

/-- What was taken stays taken. -/
theorem Taken.later {received : ℕ} {t : Datadir} (h : Taken chan d₀ received ⟨s, heard, said⟩)
    (hrel : growing.rel s t) : Taken chan d₀ received ⟨t, heard, said⟩ where
  answered := h.answered
  counted := h.counted
  logged env henv := (h.logged env henv).later hrel

/-- A frame that is no envelope, with its answers. -/
theorem Taken.answer {received : ℕ} {t : Datadir} {f : Frame} {ms : List Frame}
    (h : Taken chan d₀ received ⟨s, heard, said⟩) (hrel : growing.rel s t)
    (hms : ms.length = replies f) (hf : envelopes [f] = []) :
    Taken chan d₀ received ⟨t, heard ++ [f], said ++ ms⟩ where
  answered := by
    have hreplies : repliesTo [f] = replies f := by simp [repliesTo]
    have hanswered := h.answered
    simp only [List.length_append, repliesTo_append] at hanswered ⊢
    omega
  counted := by
    rw [envelopes_append, hf, List.append_nil]
    exact h.counted
  logged env henv := by
    rw [envelopes_append, hf, List.append_nil] at henv
    exact (h.logged env henv).later hrel

/-- An envelope, which is in the log. -/
theorem Taken.log {received : ℕ} {t : Datadir} {env : Envelope}
    (h : Taken chan d₀ received ⟨s, heard, said⟩) (hrel : growing.rel s t)
    (henv : Seen chan d₀ t fun T => env.id ∈ T.map Envelope.id) :
    Taken chan d₀ (received + 1) ⟨t, heard ++ [.envelope env], said⟩ where
  answered := by
    have hreplies : repliesTo [Frame.envelope env] = 0 := rfl
    have hanswered := h.answered
    simp only [repliesTo_append] at hanswered ⊢
    omega
  counted := by
    rw [envelopes_append, List.length_append, ← h.counted]
    rfl
  logged env' henv' := by
    rw [envelopes_append, List.mem_append] at henv'
    rcases henv' with henv' | henv'
    · exact (h.logged env' henv').later hrel
    · obtain rfl : env' = env := List.mem_singleton.1 henv'
      exact henv

/-- The client comes to stand where it waits for the challenge. -/
theorem reaches_start {channel : String} {ts : Int64}
    (hchan : ChannelRef.parse channel = .ok chan) :
    Reaches Given growing (promise chan d₀) (start channel ts) (stands chan d₀) ⟨d₀, [], []⟩ := by
  have hask {α : Type} (q : ReadM α) (t : Datadir) :
      growing.rel t ((liftM q : StoreM α).exec t).2 := growing.refl t
  refine .bind (.except fun chan' t hparse hrel => ?_)
  obtain rfl : chan' = chan := Except.ok.inj (hparse.symm.trans hchan)
  have hstored : Stored chan' _ .chunkSummaries (chunkSummaries chan') :=
    .chunkSummaries
  refine .bind (.call hstored.grows fun t₁ chunks u v h₁ hexec hv => ?_)
  have hseen := seen_chunkSummaries (growing.trans hrel h₁) hexec hv
  have hgrown : growing.rel d₀ v := by
    have hcall := hstored.grows t₁
    rw [hexec] at hcall
    exact growing.trans hrel (growing.trans h₁ (growing.trans hcall hv))
  -- the histories and the identity are only read
  refine .bind (.call (hask _) fun t₂ policyEvents u₂ v₂ h₂ he₂ hv₂ => ?_)
  refine .bind (.call (hask _) fun t₃ moderationEvents u₃ v₃ h₃ he₃ hv₃ => ?_)
  refine .bind (.call (hask _) fun t₄ identity u₄ v₄ h₄ he₄ hv₄ => ?_)
  refine .ret fun w hw => ?_
  obtain rfl : u₂ = t₂ := (Prod.mk.inj he₂).2.symm
  obtain rfl : u₃ = t₃ := (Prod.mk.inj he₃).2.symm
  obtain rfl : u₄ = t₄ := (Prod.mk.inj he₄).2.symm
  have hlater : growing.rel v w := growing.trans h₂ (growing.trans hv₂ (growing.trans h₃
    (growing.trans hv₃ (growing.trans h₄ (growing.trans hv₄ hw)))))
  exact ⟨rfl, growing.trans hgrown hlater, rfl, rfl, hseen.later hlater⟩

/-! ### One frame -/

/-- The client says nothing to a policy frame. -/
theorem speaks_takePolicySync (m : PolicySync) :
    Speaks (fun _ => False) (fun _ ms => ms = []) (takePolicySync chan m) := by
  unfold takePolicySync
  split
  · exact .bind (.call fun _ => trivial)
  · exact .bind (.bailIf fun _ => .bind (.call fun _ => .ret rfl))

/-- The client says nothing to a moderation frame. -/
theorem speaks_takeModerationSync (m : ModerationSync) :
    Speaks (fun _ => False) (fun _ ms => ms = []) (takeModerationSync chan m) := by
  unfold takeModerationSync
  split
  · exact .bind (.call fun _ => trivial)
  · exact .bind (.bailIf fun _ => .bind (.call fun _ => .ret rfl))

/-- To a key frame it says its own keys. -/
theorem speaks_takeKeySync {identity : KeypairFile} {m : KeySync} {nonces : ℕ → Bytes} :
    Speaks (fun f => ∃ m, f = .keySync m) (fun _ ms => ∃ m, ms = [.keySync m])
      (takeKeySync chan identity m nonces) := by
  refine .bind (.except fun _ _ => .bind (.call fun policy => .bind (.bailIf fun _ => ?_)))
  split
  · exact .bind (.call fun _ => .bind (.call fun offers => .emit ⟨_, rfl⟩ ⟨_, rfl⟩))
  · exact .bind (.bailIf fun _ => .emit ⟨_, rfl⟩ ⟨_, rfl⟩)

/-- Its calls let every log grow, and no more. -/
theorem grows_each {α : Type} {p : Session α} (hp : p.Each (Stored chan)) :
    p.Each fun _ _ x => ∀ t, growing.rel t (x.exec t).2 :=
  hp.mono fun _ _ _ hx => hx.grows

/-- **A frame that is taken** is answered as it asks for. -/
theorem reaches_handle {identity : KeypairFile} {received : ℕ} {nonces : ℕ → Bytes} (f : Frame)
    (hs : growing.rel d₀ s) (htaken : Taken chan d₀ received ⟨s, heard, said⟩) :
    Reaches Given growing (promise chan d₀)
      (handle chan identity received nonces (classify f.decoded)) (stands chan d₀)
      ⟨s, heard ++ [f], said⟩ := by
  have hof := of_classify f
  cases hcommand : classify f.decoded with
  | complete => exact .ret fun t hrel => ⟨heard, f, List.prefix_refl _, hcommand, htaken.later hrel⟩
  | peerError error => exact .fail
  | policySync m =>
    rw [hcommand] at hof
    refine .bind (.drift (grows_each (stored_takePolicySync m)) (speaks_takePolicySync m)
      (fun _ _ _ h => h.elim) fun _ t ms ht hms => .ret fun u hu => ?_)
    subst hms
    have hrel := growing.trans ht hu
    exact ⟨rfl, growing.trans hs hrel, htaken.answer hrel hof.1.symm hof.2⟩
  | moderationSync m =>
    rw [hcommand] at hof
    refine .bind (.drift (grows_each (stored_takeModerationSync m)) (speaks_takeModerationSync m)
      (fun _ _ _ h => h.elim) fun _ t ms ht hms => .ret fun u hu => ?_)
    subst hms
    have hrel := growing.trans ht hu
    exact ⟨rfl, growing.trans hs hrel, htaken.answer hrel hof.1.symm hof.2⟩
  | keySync m =>
    rw [hcommand] at hof
    obtain rfl : f = .keySync m := hof
    refine .bind (.drift (grows_each (stored_takeKeySync identity m nonces)) speaks_takeKeySync
      ?_ fun _ t ms ht hms => .ret fun u hu => ?_)
    · rintro _ t ms ⟨m', rfl⟩ -
      trivial
    · obtain ⟨m', rfl⟩ := hms
      have hrel := growing.trans ht hu
      exact ⟨rfl, growing.trans hs hrel, htaken.answer hrel rfl rfl⟩
  | chunkDiff m =>
    rw [hcommand] at hof
    obtain rfl : f = .chunkDiff m := hof
    refine .bind (.bind ((reaches_readChunks hs).mono ?_))
    rintro chunks ⟨t, heard', said'⟩ ⟨ht, rfl, rfl, -, hchunks⟩
    refine .emit (fun u hu chunk hchunk => (hchunks chunk hchunk).later hu) fun u hu => ?_
    refine .ret fun v hv => ?_
    have hrel := growing.trans ht (growing.trans hu hv)
    exact ⟨rfl, growing.trans hs hrel, htaken.answer hrel rfl rfl⟩
  | want m =>
    rw [hcommand] at hof
    obtain rfl : f = .want m := hof
    refine .bind ((reaches_sendMessages fun env t envs henv ht => ?_).mono ?_)
    · exact ⟨m, List.mem_append_right _ List.mem_cons_self, henv⟩
    rintro _ ⟨t, heard', said'⟩ ⟨ht, rfl, envs, henvs, rfl⟩
    refine .ret fun u hu => ?_
    have hrel := growing.trans ht hu
    have hlength : (envs.map Frame.envelope).length = replies (.want m) := by
      show _ = m.ids.length
      rw [← henvs, List.length_map, List.length_map]
    exact ⟨rfl, growing.trans hs hrel, htaken.answer hrel hlength rfl⟩
  | envelope o =>
    cases o with
    | none => exact .fail
    | some env =>
      rw [hcommand] at hof
      obtain rfl : f = .envelope env := hof
      have hstored : Stored chan _ .appendMessage (appendMessage chan env) :=
        .appendMessage env
      refine .bind (.bind (.ret fun t₁ h₁ => .bind (.bailIf fun _ t₂ h₂ => .bind
        (.except fun _ t₃ _ h₃ => .bind (.call hstored.grows fun t id u v ht hexec hv =>
          .ret fun w hw => .ret fun w' hw' => ?_)))))
      have hstart := growing.trans h₁ (growing.trans h₂ (growing.trans h₃ ht))
      have hgrown : growing.rel s v := by
        have hcall := hstored.grows t
        rw [hexec] at hcall
        exact growing.trans hstart (growing.trans hcall hv)
      have hrel := growing.trans hgrown (growing.trans hw hw')
      have hseen := seen_appendMessage (growing.trans hs hstart) hexec hv
      exact ⟨rfl, growing.trans hs hrel,
        htaken.log hrel (hseen.later (growing.trans hw hw'))⟩

/-- **Wherever the client stands, it keeps its promise to the next frame.**
-/
theorem reaches_resume {w : Await} {i : Option Frame} {given : Given} {t : Datadir}
    (hstands : stands chan d₀ w ⟨t, heard, said⟩) :
    Reaches Given growing (promise chan d₀) (resume w (arrival i, given)) (stands chan d₀)
      ⟨t, heard ++ i.toList, said⟩ := by
  cases w with
  | challenge chan' chunks policyEvents moderationEvents identity authTs =>
    obtain ⟨rfl, ht, rfl, rfl, hseen⟩ := hstands
    refine .bind (.except fun challenge u hread hu => .bind (.except fun status v hanswer hv => ?_))
    obtain ⟨m, rfl⟩ : ∃ m, i = some (.challenge m) := by
      cases i with
      | none => cases hread
      | some f =>
        simp only [arrival, readChallenge, bind_eq_ok, orBail_eq_ok, bailIf_eq_ok,
          pure_eq_ok] at hread
        obtain ⟨m, hm, -⟩ := hread
        exact ⟨m, by rw [eq_of_decoded_challenge hm]⟩
    obtain ⟨expected, authSig, -, -, -, rfl⟩ := answerChallenge_ok.1 hanswer
    have hrel := growing.trans hu hv
    refine .bind (.emit (fun t₁ h₁ => ⟨rfl, rfl, hseen.later (growing.trans hrel h₁)⟩) fun t₁ h₁ =>
      .ret fun t₂ h₂ => ⟨rfl, ?_, rfl, rfl, by simp [envelopes]⟩)
    exact growing.trans ht (growing.trans hrel (growing.trans h₁ h₂))
  | frames chan' identity received =>
    obtain ⟨rfl, ht, htaken⟩ := hstands
    cases i with
    | none => exact .fail
    | some f => exact reaches_handle f ht htaken
  | done received =>
    obtain ⟨before, last, hpre, hlast, htaken⟩ := hstands
    exact .ret fun u hu =>
      ⟨before, last, hpre.trans (List.prefix_append _ _), hlast, htaken.later hu⟩

/-- **The client, whatever it hears.** -/
theorem reliable {channel : String} {ts : Int64} (hchan : ChannelRef.parse channel = .ok chan) :
    Reliable conduct Beside growing (promise chan d₀) (stands chan d₀) (start channel ts) d₀ where
  beside _ _ := growing_of_beside
  start := reaches_start hchan
  resume _ _ _ _ _ _ := reaches_resume

end Initiator

end Embernet
