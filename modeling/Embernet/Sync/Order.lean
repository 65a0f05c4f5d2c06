import Embernet.Model.Initiator
import Embernet.Store.Readable
/-!
# Order — what the client has accepted before it takes messages

The client takes each frame as it comes, so the order is the
responder's. Where every envelope and the completion come after an update
of each history, they come after both were accepted: an update that is
refused ends the session.
-/

set_option autoImplicit false

namespace Embernet

open Primitives Proc

namespace Initiator

/-! ## Frames -/

/-- The record of a client's session. -/
abbrev Transcript := List (Entry Call Frame (Incoming × Given))

/-- What was received, in order. -/
def received (tr : Transcript) : List Incoming :=
  tr.filterMap fun
    | .receive (i, _) => some i
    | _ => none

/-- The commands of what the loop received: the first text is the
challenge. -/
def commands (tr : Transcript) : List Command :=
  (received tr).tail.filterMap fun
    | .text t => some (classify t)
    | _ => none

/-- Both appends of a history have returned. -/
def BothAccepted (tr : Transcript) : Prop :=
  .act .appendRemotePolicyHistory true ∈ tr ∧ .act .appendRemoteModerationHistory true ∈ tr

/-- An update of the policy history. -/
def Command.UpdatesPolicy : Command → Prop
  | .policySync m => m.status = "update"
  | _ => False

/-- An update of the moderation history. -/
def Command.UpdatesModeration : Command → Prop
  | .moderationSync m => m.status = "update"
  | _ => False

variable [Primitives]

/-- The completion, or an envelope of the channel that verifies. -/
def Command.Final (channel : String) : Command → Prop
  | .complete => True
  | .envelope (some env) => env.channel = channel ∧ env.verify = .ok ()
  | _ => False

/-- The order the protocol gives: the two histories, and then messages. -/
def InOrder (channel : String) (cs : List Command) : Prop :=
  ∀ before c after, cs = before ++ c :: after → c.Final channel →
    (∃ u ∈ before, u.UpdatesPolicy) ∧ ∃ u ∈ before, u.UpdatesModeration

/-! ### How records grow -/

variable {channel : String} {tr : Transcript} {d : Datadir}

omit [Primitives] in
/-- What was received, frame by frame. -/
theorem received_concat_receive (i : Incoming) (given : Given) :
    received (tr ++ [.receive (i, given)]) = received tr ++ [i] := by
  simp [received]

omit [Primitives] in
@[simp] theorem received_concat_act (l : Call) (b : Bool) :
    received (tr ++ [.act l b]) = received tr := by
  simp [received]

omit [Primitives] in
@[simp] theorem received_concat_send (m : Frame) :
    received (tr ++ [.send m]) = received tr := by
  simp [received]

omit [Primitives] in
@[simp] theorem commands_concat_act (l : Call) (b : Bool) :
    commands (tr ++ [.act l b]) = commands tr := by
  rw [commands, received_concat_act, commands]

omit [Primitives] in
@[simp] theorem commands_concat_send (m : Frame) :
    commands (tr ++ [.send m]) = commands tr := by
  rw [commands, received_concat_send, commands]

omit [Primitives] in
/-- A text behind the first is a command. -/
theorem commands_concat_text (h : received tr ≠ []) (t : Decoded) (given : Given) :
    commands (tr ++ [.receive (.text t, given)]) = commands tr ++ [classify t] := by
  rw [commands, received_concat_receive, List.tail_append_of_ne_nil h, List.filterMap_append,
    commands]
  rfl

omit [Primitives] in
/-- Once both were accepted they stay so. -/
theorem BothAccepted.concat (h : BothAccepted tr) (e : Entry Call Frame (Incoming × Given)) :
    BothAccepted (tr ++ [e]) :=
  ⟨List.mem_append_left _ h.1, List.mem_append_left _ h.2⟩

/-! ## The invariant -/

/-- Every history that an update arrived for was extended. -/
def Accepted (tr : Transcript) : Prop :=
  ((∃ u ∈ commands tr, u.UpdatesPolicy) → .act .appendRemotePolicyHistory true ∈ tr) ∧
    ((∃ u ∈ commands tr, u.UpdatesModeration) → .act .appendRemoteModerationHistory true ∈ tr)

/-- The challenge was answered, and every update since was accepted. -/
def Answered (tr : Transcript) : Prop :=
  received tr ≠ [] ∧ Accepted tr

/-- Where the frames of a record are in order, a message is appended
behind both updates. -/
def Behind (channel : String) (tr : Transcript) (e : Entry Call Frame (Incoming × Given)) : Prop :=
  e = .act .appendMessage true → InOrder channel (commands tr) → BothAccepted tr

/-- What holds where the client waits. -/
def Waits (channel : String) : Except Error Await → Datadir × Transcript → Prop
  | .ok (.challenge chan ..), g => chan.fullName = channel ∧ received g.2 = []
  | .ok (.frames chan ..), g => chan.fullName = channel ∧ Answered g.2
  | .ok (.done _), g => InOrder channel (commands g.2) → BothAccepted g.2
  | .error _, _ => True

omit [Primitives] in
/-- Without another frame nothing more is to be answered. -/
theorem Answered.concat (h : Answered tr) {e : Entry Call Frame (Incoming × Given)}
    (hreceived : received (tr ++ [e]) = received tr) : Answered (tr ++ [e]) := by
  have hcommands : commands (tr ++ [e]) = commands tr := by
    rw [commands, hreceived, commands]
  refine ⟨hreceived ▸ h.1, fun hu => ?_, fun hu => ?_⟩
  · exact List.mem_append_left _ (h.2.1 (hcommands ▸ hu))
  · exact List.mem_append_left _ (h.2.2 (hcommands ▸ hu))

omit [Primitives] in
/-- A text is taken: where it updates a history, that history is extended
next. -/
theorem Answered.text (h : Answered tr) {t : Decoded} {given : Given} {rest : Transcript}
    (hrest : received (tr ++ [.receive (.text t, given)] ++ rest) =
      received (tr ++ [.receive (.text t, given)]))
    (hpolicy : (classify t).UpdatesPolicy → .act .appendRemotePolicyHistory true ∈ rest)
    (hmoderation : (classify t).UpdatesModeration →
      .act .appendRemoteModerationHistory true ∈ rest) :
    Answered (tr ++ [.receive (.text t, given)] ++ rest) := by
  have hcommands : commands (tr ++ [.receive (.text t, given)] ++ rest) =
      commands tr ++ [classify t] := by
    rw [commands, hrest, ← commands, commands_concat_text h.1]
  refine ⟨by rw [hrest, received_concat_receive]; simp, ?_, ?_⟩
  · rintro ⟨u, hu, hupdates⟩
    rw [hcommands, List.mem_append, List.mem_singleton] at hu
    rcases hu with hu | rfl
    · exact List.mem_append_left _ (List.mem_append_left _ (h.2.1 ⟨u, hu, hupdates⟩))
    · exact List.mem_append_right _ (hpolicy hupdates)
  · rintro ⟨u, hu, hupdates⟩
    rw [hcommands, List.mem_append, List.mem_singleton] at hu
    rcases hu with hu | rfl
    · exact List.mem_append_left _ (List.mem_append_left _ (h.2.2 ⟨u, hu, hupdates⟩))
    · exact List.mem_append_right _ (hmoderation hupdates)

omit [Primitives] in
/-- A text that updates no history leaves nothing to accept. -/
theorem Answered.quiet (h : Answered tr) (t : Decoded) (given : Given)
    (hpolicy : ¬ (classify t).UpdatesPolicy) (hmoderation : ¬ (classify t).UpdatesModeration) :
    Answered (tr ++ [.receive (.text t, given)]) := by
  have htext : Answered (tr ++ [.receive (.text t, given)] ++ []) :=
    h.text (by rw [List.append_nil]) (fun hu => absurd hu hpolicy) fun hu => absurd hu hmoderation
  rwa [List.append_nil] at htext

/-- **Behind both updates**: what is final comes where both were
accepted. -/
theorem Answered.bothAccepted (h : Answered tr) {t : Decoded} {given : Given}
    (hfinal : (classify t).Final channel)
    (horder : InOrder channel (commands (tr ++ [.receive (.text t, given)]))) :
    BothAccepted (tr ++ [.receive (.text t, given)]) := by
  rw [commands_concat_text h.1] at horder
  obtain ⟨hpolicy, hmoderation⟩ := horder (commands tr) _ [] rfl hfinal
  exact BothAccepted.concat ⟨h.2.1 hpolicy, h.2.2 hmoderation⟩ _

/-! ## The handlers -/

variable {chan : ChannelRef} {identity : KeypairFile} {n : ℕ} {t : Decoded} {given : Given}

/-- The rest of the handlers make neither append. -/
def Quiet (l : Call) : Prop := l ≠ .appendMessage

/-- Only an append has to come behind the histories. -/
theorem behind_of_ne {e : Entry Call Frame (Incoming × Given)}
    (h : e ≠ .act .appendMessage true) : Behind channel tr e :=
  fun he => absurd he h

/-- A quiet handler goes back to waiting. -/
theorem waits_of_quiet {p : Session Unit} (hp : p.Each fun _ l _ => Quiet l)
    (hchan : chan.fullName = channel)
    (h : Answered tr) :
    wp transcript (recorded (Behind channel))
      (p >>= fun _ => pure (.frames chan identity n)) (Waits channel) (d, tr) := by
  refine wp_only_bind (J := Answered) ?_ ?_ hp ?_ ?_ h
  · intro l b tr hl h
    exact ⟨behind_of_ne fun he => hl (by cases he; rfl), h.concat (received_concat_act l b)⟩
  · intro m tr h
    exact ⟨behind_of_ne nofun, h.concat (received_concat_send m)⟩
  · exact fun _ _ _ h => wp_recorded_ret fun _ => ⟨hchan, h⟩
  · exact fun _ _ _ _ => trivial

/-- The client appends nothing for a request of buckets. -/
theorem each_readChunks (chan : ChannelRef) (indices : List ℕ) :
    (readChunks chan indices).Each fun _ l _ => Quiet l := by
  induction indices with
  | nil => trivial
  | cons i is ih => exact (each_call nofun).bind fun _ => ih.bind fun _ => trivial

/-- The client appends nothing for a request of envelopes. -/
theorem each_sendMessages (chan : ChannelRef) (ids : List String) :
    (sendMessages chan ids).Each fun _ l _ => Quiet l := by
  induction ids with
  | nil => trivial
  | cons id ids ih => exact (each_call nofun).bind fun _ => ih

/-- The client appends nothing for keys. -/
theorem each_takeKeySync (chan : ChannelRef) (identity : KeypairFile) (m : KeySync)
    (nonces : ℕ → Bytes) : (takeKeySync chan identity m nonces).Each fun _ l _ => Quiet l := by
  refine (each_except _).bind fun _ => (each_call (by rintro ⟨⟩)).bind fun policy =>
    each_bailIf.bind fun _ => ?_
  split
  · exact (each_call (by rintro ⟨⟩)).bind fun _ => (each_call (by rintro ⟨⟩)).bind fun _ => each_emit _
  · exact each_bailIf.bind fun _ => each_emit _

/-- The client appends nothing for a comparison. -/
theorem each_takeChunkDiff (chan : ChannelRef) (m : ChunkDiff) :
    (takeChunkDiff chan m).Each fun _ l _ => Quiet l :=
  (each_readChunks chan _).bind fun _ => each_emit _

/-- An update of one history, and back to waiting once it was accepted. -/
theorem waits_of_update {β : Type} {l : Call} {x : StoreM β} (hchan : chan.fullName = channel)
    (h : Answered tr) (hl : l ≠ .appendMessage)
    (hpolicy : (classify t).UpdatesPolicy → l = .appendRemotePolicyHistory)
    (hmoderation : (classify t).UpdatesModeration → l = .appendRemoteModerationHistory) :
    wp transcript (recorded (Behind channel))
      (Proc.act l x fun _ => Proc.ret (.frames chan identity n)) (Waits channel)
      (d, tr ++ [.receive (.text t, given)]) := by
  have hbehind (b : Bool) : Behind channel (tr ++ [.receive (.text t, given)]) (.act l b) :=
    behind_of_ne fun he => hl (by cases he; rfl)
  refine wp_recorded_act (fun _ _ => ⟨hbehind true, ?_⟩) fun _ _ => ⟨hbehind false, trivial⟩
  refine wp_recorded_ret fun _ => ⟨hchan, h.text (received_concat_act _ _) ?_ ?_⟩
  · intro hu
    rw [hpolicy hu]
    exact List.mem_singleton_self _
  · intro hu
    rw [hmoderation hu]
    exact List.mem_singleton_self _

/-- A history that forked is saved, and the session ends. -/
theorem waits_of_conflict {β : Type} {l : Call} {x : StoreM β} {e : Error}
    (hl : l ≠ .appendMessage) :
    wp transcript (recorded (Behind channel)) (Proc.act l x fun _ => Proc.fail e)
      (Waits channel) (d, tr) := by
  have hbehind (b : Bool) : Behind channel tr (.act l b) :=
    behind_of_ne fun he => hl (by cases he; rfl)
  exact wp_recorded_act (fun _ _ => ⟨hbehind true, wp_recorded_fail fun _ => trivial⟩)
    fun _ _ => ⟨hbehind false, trivial⟩

/-- **A policy frame**: an update that is taken is accepted. -/
theorem waits_takePolicySync {m : PolicySync} (hchan : chan.fullName = channel) (h : Answered tr)
    (hcommand : classify t = .policySync m) :
    wp transcript (recorded (Behind channel))
      (takePolicySync chan m >>= fun _ => pure (.frames chan identity n)) (Waits channel)
      (d, tr ++ [.receive (.text t, given)]) := by
  rw [takePolicySync]
  split
  · exact waits_of_conflict (by rintro ⟨⟩)
  · by_cases hupdate : m.status = "update"
    · simp only [bailIf, hupdate, ne_eq, not_true, if_false]
      exact waits_of_update hchan h (by rintro ⟨⟩) (fun _ => rfl)
        fun hu => absurd (show (Command.policySync m).UpdatesModeration from hcommand ▸ hu) id
    · simp only [bailIf, hupdate, ne_eq, not_false_eq_true, if_true]
      exact wp_recorded_fail fun _ => trivial

/-- **A moderation frame**, in the same way. -/
theorem waits_takeModerationSync {m : ModerationSync} (hchan : chan.fullName = channel)
    (h : Answered tr) (hcommand : classify t = .moderationSync m) :
    wp transcript (recorded (Behind channel))
      (takeModerationSync chan m >>= fun _ => pure (.frames chan identity n)) (Waits channel)
      (d, tr ++ [.receive (.text t, given)]) := by
  rw [takeModerationSync]
  split
  · exact waits_of_conflict (by rintro ⟨⟩)
  · by_cases hupdate : m.status = "update"
    · simp only [bailIf, hupdate, ne_eq, not_true, if_false]
      exact waits_of_update hchan h (by rintro ⟨⟩)
        (fun hu => absurd (show (Command.moderationSync m).UpdatesPolicy from hcommand ▸ hu) id)
        fun _ => rfl
    · simp only [bailIf, hupdate, ne_eq, not_false_eq_true, if_true]
      exact wp_recorded_fail fun _ => trivial

/-- An envelope of the channel that verifies is appended. -/
theorem takeEnvelope_of_verify {env : Envelope} (hname : env.channel = chan.fullName)
    (hverify : env.verify = .ok ()) :
    takeEnvelope chan (some env) =
      Proc.act .appendMessage (appendMessage chan env) fun _ => Proc.ret () := by
  rw [takeEnvelope, orBail, Proc.pure_bind', Proc.bailIf_bind, if_neg (not_not.2 hname), hverify]
  rfl

/-- An envelope is refused, or it is one of the channel that verifies. -/
theorem takeEnvelope_cases (chan : ChannelRef) (m : Option Envelope) :
    (∃ e, takeEnvelope chan m = Proc.fail e) ∨
      ∃ env, m = some env ∧ env.channel = chan.fullName ∧ env.verify = .ok () := by
  cases m with
  | none => exact Or.inl ⟨_, rfl⟩
  | some env =>
    by_cases hname : env.channel = chan.fullName
    · cases hverify : env.verify with
      | error e =>
        refine Or.inl ⟨s!"verify downloaded envelope {env.id}" :: e, ?_⟩
        rw [takeEnvelope, orBail, Proc.pure_bind', Proc.bailIf_bind, if_neg (not_not.2 hname),
          hverify]
        rfl
      | ok u => exact Or.inr ⟨env, rfl, hname, hverify⟩
    · refine Or.inl ⟨[s!"downloaded envelope {env.id} belongs to {env.channel}"], ?_⟩
      rw [takeEnvelope, orBail, Proc.pure_bind', Proc.bailIf_bind, if_pos hname]

/-- **An envelope**: what is appended is final. -/
theorem waits_takeEnvelope {m : Option Envelope} (hchan : chan.fullName = channel)
    (h : Answered tr) (hcommand : classify t = .envelope m) :
    wp transcript (recorded (Behind channel))
      (takeEnvelope chan m >>= fun _ => pure (.frames chan identity n)) (Waits channel)
      (d, tr ++ [.receive (.text t, given)]) := by
  rcases takeEnvelope_cases chan m with ⟨e, heq⟩ | ⟨env, rfl, hname, hverify⟩
  · rw [heq]
    exact wp_recorded_fail fun _ => trivial
  · rw [takeEnvelope_of_verify hname hverify]
    have hfinal : (classify t).Final channel := by
      rw [hcommand]
      exact ⟨hname.trans hchan, hverify⟩
    have hquiet : Answered (tr ++ [.receive (.text t, given)]) :=
      h.quiet t given (by rw [hcommand]; exact id) (by rw [hcommand]; exact id)
    refine wp_recorded_act (fun _ _ => ⟨fun _ horder => h.bothAccepted hfinal horder, ?_⟩)
      fun _ _ => ⟨behind_of_ne nofun, trivial⟩
    exact wp_recorded_ret fun _ => ⟨hchan, hquiet.concat (received_concat_act _ _)⟩

/-- **One text**: the client waits again, is done behind both updates, or
has failed. -/
theorem waits_handle {nonces : ℕ → Bytes} (hchan : chan.fullName = channel) (h : Answered tr) :
    wp transcript (recorded (Behind channel))
      (handle chan identity n nonces (classify t)) (Waits channel)
      (d, tr ++ [.receive (.text t, given)]) := by
  have hquiet (hcommand : ¬ (classify t).UpdatesPolicy ∧ ¬ (classify t).UpdatesModeration) :
      Answered (tr ++ [.receive (.text t, given)]) := h.quiet t given hcommand.1 hcommand.2
  cases hcommand : classify t with
  | complete =>
    refine wp_recorded_ret fun _ horder => h.bothAccepted ?_ horder
    rw [hcommand]
    trivial
  | peerError error => exact wp_recorded_fail fun _ => trivial
  | policySync m => exact waits_takePolicySync hchan h hcommand
  | moderationSync m => exact waits_takeModerationSync hchan h hcommand
  | keySync m =>
    exact waits_of_quiet (each_takeKeySync chan identity m nonces) hchan
      (hquiet (by rw [hcommand]; exact ⟨id, id⟩))
  | chunkDiff m =>
    exact waits_of_quiet (each_takeChunkDiff chan m) hchan
      (hquiet (by rw [hcommand]; exact ⟨id, id⟩))
  | want m =>
    exact waits_of_quiet (each_sendMessages chan m.ids) hchan
      (hquiet (by rw [hcommand]; exact ⟨id, id⟩))
  | envelope m => exact waits_takeEnvelope hchan h hcommand

/-! ## Whole sessions -/

omit [Primitives] in
/-- The first thing received is no frame of the loop. -/
theorem answered_of_first (h : received tr = []) (i : Incoming) (given : Given) :
    Answered (tr ++ [.receive (i, given)]) := by
  have hcommands : commands (tr ++ [.receive (i, given)]) = [] := by
    rw [commands, received_concat_receive, h]
    rfl
  refine ⟨by rw [received_concat_receive]; simp, ?_, ?_⟩ <;>
  · rw [hcommands]
    rintro ⟨u, hu, -⟩
    cases hu

omit [Primitives] in
/-- What is no text is no command. -/
theorem commands_concat_other {i : Incoming} (given : Given) (h : received tr ≠ [])
    (hi : ∀ t, i ≠ .text t) : commands (tr ++ [.receive (i, given)]) = commands tr := by
  rw [commands, received_concat_receive, List.tail_append_of_ne_nil h, List.filterMap_append,
    commands]
  cases i with
  | text t => exact absurd rfl (hi t)
  | _ => simp

omit [Primitives] in
/-- What is no text asks for nothing. -/
theorem Answered.other (h : Answered tr) {i : Incoming} (given : Given)
    (hi : ∀ t, i ≠ .text t) : Answered (tr ++ [.receive (i, given)]) := by
  have hcommands := commands_concat_other given h.1 hi
  refine ⟨by rw [received_concat_receive]; simp, fun hu => ?_, fun hu => ?_⟩
  · exact List.mem_append_left _ (h.2.1 (hcommands ▸ hu))
  · exact List.mem_append_left _ (h.2.2 (hcommands ▸ hu))

omit [Primitives] in
/-- A record's commands stay the first of a longer one's. -/
theorem prefix_commands (tr rest : Transcript) : commands tr <+: commands (tr ++ rest) := by
  have hreceived : received (tr ++ rest) = received tr ++ received rest :=
    List.filterMap_append ..
  rw [commands, commands, hreceived, ← List.drop_one, ← List.drop_one]
  exact ((List.prefix_append _ _).drop 1).filterMap _

/-- The beginning of frames in order is in order. -/
theorem InOrder.of_prefix {cs cs' : List Command} (h : InOrder channel cs') (hp : cs <+: cs') :
    InOrder channel cs := by
  obtain ⟨rest, rfl⟩ := hp
  rintro before c after rfl hc
  exact h before c (after ++ rest) (by simp) hc

/-- **From one point of waiting to the next.** -/
theorem waits_resume (a : Await) (i : Incoming × Given) (g : Datadir × Transcript)
    (h : Waits channel (.ok a) g) :
    wp transcript (recorded (Behind channel)) (resume a i) (Waits channel)
      (transcript.receive i g) := by
  obtain ⟨d, tr⟩ := g
  obtain ⟨i, given⟩ := i
  change wp _ _ _ _ (d, tr ++ [.receive (i, given)])
  cases a with
  | challenge chan chunks policyEvents moderationEvents identity authTs =>
    obtain ⟨hchan, hnone⟩ := h
    have hanswered := answered_of_first hnone i given
    refine wp_only_bind (J := Answered) (S := Quiet) ?_ ?_ (each_except _) ?_ ?_ hanswered
    · intro l b tr hl h
      exact ⟨behind_of_ne fun he => hl (by cases he; rfl), h.concat (received_concat_act l b)⟩
    · exact fun m tr h => ⟨behind_of_ne nofun, h.concat (received_concat_send m)⟩
    · intro challenge d tr h
      cases answerChallenge chan chunks policyEvents moderationEvents identity authTs challenge
        given with
      | error e => exact wp_recorded_fail fun _ => trivial
      | ok status =>
        exact wp_recorded_send (behind_of_ne nofun) fun _ => wp_recorded_ret fun _ =>
          ⟨hchan, h.concat (received_concat_send _)⟩
    · exact fun _ _ _ _ => trivial
  | frames chan identity n =>
    obtain ⟨hchan, hanswered⟩ := h
    cases i with
    | text t => exact waits_handle hchan hanswered
    | other =>
      have hother := hanswered.other (i := .other) given (by simp)
      change wp _ _ (Proc.ret (Await.frames chan identity n)) _ _
      exact wp_recorded_ret fun _ => ⟨hchan, hother⟩
    | failed => exact wp_recorded_fail fun _ => trivial
    | closed => exact wp_recorded_fail fun _ => trivial
  | done n =>
    refine wp_recorded_ret fun _ horder => BothAccepted.concat (h ?_) _
    exact horder.of_prefix (prefix_commands tr _)

/-- What the client reads before it is challenged. -/
theorem waits_start (channel : String) (authTs : Int64) :
    wp transcript (recorded (Behind channel)) (start channel authTs) (Waits channel) (d, []) := by
  have hread {α : Type} {l : Call} {x : StoreM α} {f : α → Session Await} {d : Datadir}
      {tr : Transcript} (hl : Quiet l) (hnone : received tr = [])
      (hf : ∀ a d tr, received tr = [] →
        wp transcript (recorded (Behind channel)) (f a) (Waits channel) (d, tr)) :
      wp transcript (recorded (Behind channel)) (Proc.call l x >>= f) (Waits channel) (d, tr) := by
    refine wp_only_bind (J := fun tr => received tr = []) (S := Quiet) ?_ ?_ (each_call hl) hf ?_
      hnone
    · intro l b tr hl h
      exact ⟨behind_of_ne fun he => hl (by cases he; rfl), (received_concat_act l b).trans h⟩
    · exact fun m tr h => ⟨behind_of_ne nofun, (received_concat_send m).trans h⟩
    · exact fun _ _ _ _ => trivial
  rw [start]
  cases hparse : ChannelRef.parse channel with
  | error e => exact wp_recorded_fail fun _ => trivial
  | ok chan =>
    refine hread nofun rfl fun chunks d tr h => hread nofun h fun policyEvents d tr h => ?_
    refine hread nofun h fun moderationEvents d tr h => hread nofun h fun identity d tr h => ?_
    exact wp_recorded_ret fun _ => ⟨ChannelRef.fullName_of_parse hparse, h⟩

end Initiator

/-! ## The order of a session -/

section Order

open Initiator

variable [Primitives] {channel : String} {authTs : Int64} {d₀ d : Datadir} {tr : Transcript}
  {q : Session Await} {evs : List (Option (Event Call Frame))}

/-- **Messages do not overtake the histories where the frames are in
order.** Whatever else the responder sends, and whatever others do to the
store: where every envelope that verifies and the completion come after an
update of each history, every message was appended after both histories
were, and the session returns only if both were. -/
theorem messages_after_histories
    (hrun : Run (Recording Initiator.resume) ((d₀, []), Initiator.start channel authTs) evs
      ((d, tr), q))
    (horder : InOrder channel (commands tr)) :
    (∀ before after, tr = before ++ .act .appendMessage true :: after → BothAccepted before) ∧
      ∀ n, q = Proc.ret (.done n) → BothAccepted tr := by
  obtain ⟨hwp, hadmitted⟩ := admitted_of_run (fun a i g h => waits_resume a i g h) hrun
    (waits_start channel authTs) rfl
  refine ⟨fun before after heq => ?_, ?_⟩
  · rcases hadmitted before _ after heq with ⟨i, hi⟩ | hbehind
    · cases hi
    · exact hbehind rfl (horder.of_prefix (heq ▸ prefix_commands before _))
  · rintro n rfl
    exact wp_ret hwp horder

end Order

/-! ### Two sessions -/

section Sessions

open Initiator Simulated

attribute [local instance] simulated

/-- A node with an identity, which has made the channel. -/
def clientNode : Datadir := { newNode with identity := .value (identity 3) }

/-- The same with the channel's index written. -/
noncomputable def readyNode : Datadir := clientNode.put general.fullName (newDir.indexed [])

/-- The client's node, when it has connected. -/
theorem getElem?_readyNode : readyNode.channels[general.fullName]? = some (newDir.indexed []) :=
  getElem?_put_self _ _ _

/-- The challenge of a responder that the client does not know. -/
def welcome : AuthChallenge where
  msgType := "challenge"
  nonce := hexEncode (List.replicate 32 0)
  responder := (identity 4).publicKey
  expires := 0
  signature := signatureOf 4 (responderChallengePayload "/sync"
    (hexEncode (List.replicate 32 0)) (identity 4).publicKey 0)

/-- At the epoch, with no pin. -/
def unpinned : Given where
  now := 0
  now' := 0
  expected := .ok none
  nonces _ := []

/-- The challenge is in order. -/
theorem verify_welcome : verifyAuthChallenge welcome "/sync" none 0 0 = .ok () :=
  verifyAuthChallenge_ok.2 ⟨rfl, by decide, ⟨_, hexDecode_hexEncode _, by simp⟩, by simp,
    verifyBytes_signatureOf 4 _⟩

/-- What the client records before it is challenged. -/
def readings : Transcript :=
  [.act .chunkSummaries true, .act .readPolicyHistory true, .act .readModerationHistory true,
    .act .loadIdentity true]

/-- It has made its reads, one after the other. -/
theorem alone_start : ∃ chunks, Alone (Initiator.start general.fullName 0) clientNode readings
    (.ok (.challenge general chunks [] [] (identity 3) 0)) readyNode := by
  have hdir : clientNode.channels[general.fullName]? = some newDir := getElem?_put_self _ _ _
  have hsummaries : (chunkSummaries general).exec clientNode = (indexSummaries (indexOf [] 0), _) :=
    readIndexed_exec hdir rfl LogOk.empty
  rw [indexSummaries_indexOf] at hsummaries
  have hopen : openDir general.fullName readyNode = .ok (newDir.indexed []) :=
    openDir_ok.2 getElem?_readyNode
  have hpolicy : readPolicyHistory general readyNode = .ok [] := by
    rw [readPolicyHistory, Query.bind_apply, hopen]
    rfl
  have hmoderation : readModerationHistory general readyNode = .ok [] := by
    rw [readModerationHistory, Query.bind_apply, hopen]
    rfl
  rw [Initiator.start, ChannelRef.parse_fullName]
  exact ⟨_, .act hsummaries (.query hpolicy (.query hmoderation (.query rfl (.ret _ _))))⟩

/-- The client has been challenged, has answered, and waits for frames. -/
theorem exists_run_challenged : ∃ evs status,
    Run (Recording Initiator.resume) ((clientNode, []), Initiator.start general.fullName 0) evs
      ((readyNode, readings ++ [.receive (.text { challenge := some welcome }, unpinned)] ++
        [.send (.status status)]), Proc.ret (.frames general (identity 3) 0)) := by
  obtain ⟨chunks, hstart⟩ := alone_start
  obtain ⟨evs, hrun⟩ := hstart.run (.nil _)
  obtain ⟨status, hstatus⟩ : ∃ status,
      answerChallenge general chunks [] [] (identity 3) 0 welcome unpinned = .ok status :=
    ⟨_, answerChallenge_ok.2 ⟨none, _, rfl, verify_welcome, signBytes_identity 3 _, rfl⟩⟩
  have hresume : Alone (Initiator.resume (.challenge general chunks [] [] (identity 3) 0)
      (.text { challenge := some welcome }, unpinned)) readyNode
      ([.send (.status status)] : Transcript) (.ok (.frames general (identity 3) 0)) readyNode := by
    have hread : readChallenge (.text { challenge := some welcome }) = .ok welcome := rfl
    rw [Initiator.resume, hread, Proc.lift_ok_bind, hstatus]
    exact .send (.ret _ _)
  obtain ⟨evs', hrun'⟩ := hresume.run_receive hrun
  exact ⟨evs', status, hrun'⟩

/-- An envelope is taken. -/
theorem alone_message {d d' : Datadir} {id : String}
    (happend : (appendMessage general (envelope general 1 hello)).exec d = (.ok id, d')) :
    Alone (Initiator.resume (.frames general (identity 3) 0)
      (.text { envelope := some (envelope general 1 hello) }, unpinned)) d
      ([.act .appendMessage true] : Transcript) (.ok (.frames general (identity 3) 1)) d' := by
  have hcommand : classify { envelope := some (envelope general 1 hello) } =
      .envelope (some (envelope general 1 hello)) := rfl
  rw [Initiator.resume_text, hcommand, handle,
    takeEnvelope_of_verify rfl (verify_envelope general 1 hello)]
  exact .act happend (.ret _ _)

/-- **An envelope, and then the completion**, with no update before them:
the message is appended and the session returns. -/
theorem messages_overtake_histories : ∃ evs d tr,
    Run (Recording Initiator.resume) ((clientNode, []), Initiator.start general.fullName 0) evs
      ((d, tr), Proc.ret (.done 1)) ∧
    (∃ before after, tr = before ++ .act .appendMessage true :: after ∧ ¬ BothAccepted before) ∧
    ¬ BothAccepted tr := by
  obtain ⟨evs, status, hrun⟩ := exists_run_challenged
  obtain ⟨d, happend⟩ : ∃ d, (appendMessage general (envelope general 1 hello)).exec readyNode =
      (.ok (envelope general 1 hello).id, d) := by
    have hexec := appendMessage_exec_allowed getElem?_readyNode LogOk.empty.ensured rfl
      (verify_envelope general 1 hello) (authorizeAppend_put clientNode rfl rfl _)
    rw [if_neg (by rw [indexContains_indexOf]; simp)] at hexec
    exact ⟨_, hexec⟩
  obtain ⟨evs', hrun'⟩ := (alone_message happend).run_receive hrun
  have hdone : Alone (Initiator.resume (.frames general (identity 3) 1)
      (.text { response := some (.complete 0 0) }, unpinned)) d ([] : Transcript)
      (.ok (.done 1)) d := .ret _ _
  obtain ⟨evs'', hrun''⟩ := hdone.run_receive hrun'
  refine ⟨evs'', d, _, hrun'', ⟨_, [.receive _], by rw [List.append_nil, List.append_assoc]; rfl,
    ?_⟩, ?_⟩
  · simp [BothAccepted, readings]
  · simp [BothAccepted, readings]

/-- Both updates before the envelope. -/
theorem inOrder_updates {p : PolicySync} {m : ModerationSync} (hp : p.status = "update")
    (hm : m.status = "update") (env : Envelope) :
    InOrder general.fullName [.policySync p, .moderationSync m, .envelope (some env), .complete] := by
  intro before c after heq hc
  have hupdates : Command.policySync p ∈ before ∧ Command.moderationSync m ∈ before := by
    match before, heq with
    | [], heq =>
      cases heq
      exact absurd hc id
    | [_], heq =>
      cases heq
      exact absurd hc id
    | [_, _], heq =>
      cases heq
      simp
    | [_, _, _], heq =>
      cases heq
      simp
    | _ :: _ :: _ :: _ :: before, heq =>
      have := congrArg List.length heq
      simp at this
  exact ⟨⟨_, hupdates.1, hp⟩, ⟨_, hupdates.2, hm⟩⟩

/-- An update of each history, then a message of the owner's, and then the
completion. -/
theorem messages_after_histories_updated : ∃ evs d tr before after,
    Run (Recording Initiator.resume) ((clientNode, []), Initiator.start general.fullName 0) evs
      ((d, tr), Proc.ret (.done 1)) ∧
    tr = before ++ .act .appendMessage true :: after ∧ BothAccepted before ∧ BothAccepted tr := by
  obtain ⟨evs, status, hrun⟩ := exists_run_challenged
  obtain ⟨state, hM⟩ := exists_state_tombstoneAt 0
  obtain ⟨P, hPdef⟩ : ∃ P, P = [restrictedAt 0] := ⟨_, rfl⟩
  obtain ⟨M, hMdef⟩ : ∃ M, M = [tombstoneAt 0] := ⟨_, rfl⟩
  have hP : derivePolicy general P = .ok (ownedPolicy []) := hPdef ▸ derivePolicy_restrictedAt 0
  rw [← hPdef, ← hMdef] at hM
  obtain ⟨dir₁, dir₂, hpolicy, hmoderation, -, -, hpolicyLog, -, hlog, hindex⟩ :=
    exists_taken (openLog_ok.2 ⟨getElem?_readyNode, rfl⟩) rfl rfl
      (by rw [hPdef]; exact List.cons_ne_nil _ _) (by rw [hMdef]; exact List.cons_ne_nil _ _) hP hM
  -- the owner may append
  have hdir := getElem?_put_self readyNode general.fullName dir₂
  have hread : readChannelPolicy general (readyNode.put general.fullName dir₂) =
      .ok (ownedPolicy []) := by
    rw [readChannelPolicy_of_getElem? hdir, readDirPolicy, if_pos (by rw [hpolicyLog]; rfl),
      readPolicyLog_records hpolicyLog hP]
    exact hP
  have hallowed : authorizeAppend general (envelope general 1 hello).sender
      (readyNode.put general.fullName dir₂) = .ok () :=
    authorizeAppend_ok.2 ⟨_, hread, by simp [policyAllowsAppend, ownedPolicy, envelope]⟩
  have hok : LogOk (dir₂.log.getD []) dir₂.index [] := by
    rw [hlog, hindex]
    exact LogOk.empty.ensured
  obtain ⟨d, happend⟩ : ∃ d, (appendMessage general (envelope general 1 hello)).exec
      (readyNode.put general.fullName dir₂) = (.ok (envelope general 1 hello).id, d) := by
    have hexec := appendMessage_exec_allowed hdir hok rfl (verify_envelope general 1 hello) hallowed
    rw [if_neg (by rw [indexContains_indexOf]; simp)] at hexec
    exact ⟨_, hexec⟩
  -- the four frames are taken, one after the other
  have hfirst : Alone (Initiator.resume (.frames general (identity 3) 0)
      (.text { policySync := some ⟨"policy_sync", "update", P⟩ }, unpinned)) readyNode
      ([.act .appendRemotePolicyHistory true] : Transcript)
      (.ok (.frames general (identity 3) 0)) (readyNode.put general.fullName dir₁) :=
    .act hpolicy (.ret _ _)
  obtain ⟨evs₁, hrun₁⟩ := hfirst.run_receive hrun
  have hsecond : Alone (Initiator.resume (.frames general (identity 3) 0)
      (.text { moderationSync := some ⟨"moderation_sync", "update", M⟩ }, unpinned))
      (readyNode.put general.fullName dir₁)
      ([.act .appendRemoteModerationHistory true] : Transcript)
      (.ok (.frames general (identity 3) 0)) (readyNode.put general.fullName dir₂) :=
    .act hmoderation (.ret _ _)
  obtain ⟨evs₂, hrun₂⟩ := hsecond.run_receive hrun₁
  obtain ⟨evs₃, hrun₃⟩ := (alone_message happend).run_receive hrun₂
  have hdone : Alone (Initiator.resume (.frames general (identity 3) 1)
      (.text { response := some (.complete 0 0) }, unpinned)) d ([] : Transcript)
      (.ok (.done 1)) d := .ret _ _
  obtain ⟨evs₄, hrun₄⟩ := hdone.run_receive hrun₃
  obtain ⟨hbefore, hdone⟩ := messages_after_histories hrun₄
    (inOrder_updates rfl rfl (envelope general 1 hello))
  have hsplit {tr : Transcript} {e e' : Entry Call Frame (Incoming × Given)} :
      tr ++ [e] ++ [e'] ++ [] = tr ++ e :: [e'] := by simp
  exact ⟨evs₄, d, _, _, _, hrun₄, hsplit, hbefore _ _ hsplit, hdone 1 rfl⟩

end Sessions

end Embernet
