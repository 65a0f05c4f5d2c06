import Embernet.Store.Histories
import Embernet.Sync.Authentication
/-!
# Membership — what a responder does for whom

A session is guarded by a policy that it may extend itself. While nobody
else writes the channel's policy, a frame leaves the session only where
the policy in force admits the requester; a requester it does not admit
changes nothing, and one whom the extension excludes changes nothing but
by the extension.
-/

set_option autoImplicit false

namespace Embernet

open Proc

section Membership

variable [Primitives] {chan chan' : ChannelRef} {status : StatusMessage} {key : String}
  {d d' : Datadir} {record record' : Responder.Transcript}

/-! ## Policies that stay -/

/-- The policy in force admits the key. -/
def Member (chan : ChannelRef) (key : String) (d : Datadir) : Prop :=
  ∃ policy, readChannelPolicy chan d = .ok policy ∧ policyAllowsRead policy key = true

/-- The policy that a directory gives, or its absence. -/
def policyOf (chan : ChannelRef) : Option Dir → Except Error ChannelPolicy
  | none => pure .default
  | some dir => readDirPolicy chan dir

/-- What leaves the two policy files leaves the policy. -/
theorem policyOf_map {f : Dir → Dir} (hlog : ∀ dir, (f dir).policyLog = dir.policyLog)
    (hjson : ∀ dir, (f dir).policyJson = dir.policyJson) (o : Option Dir) :
    policyOf chan (o.map f) = policyOf chan o := by
  cases o with
  | none => rfl
  | some dir => exact readDirPolicy_congr (hlog dir) (hjson dir)

/-- **An operation that writes no policy** leaves every channel's policy in
force. -/
theorem readChannelPolicy_storeOp {op : StoreOp} (h : Part.policy ∉ op.parts) (d : Datadir) :
    readChannelPolicy chan (op.exec chan' d) = readChannelPolicy chan d := by
  have hfree : ∀ part ∈ op.parts, part.Free chan' chan.fullName
      fun o => policyOf chan o = readChannelPolicy chan d := by
    intro part hpart
    have hmap {f : Dir → Dir} (hlog : ∀ dir, (f dir).policyLog = dir.policyLog)
        (hjson : ∀ dir, (f dir).policyJson = dir.policyJson) (o : Option Dir)
        (ho : policyOf chan o = readChannelPolicy chan d) :
        policyOf chan (o.map f) = readChannelPolicy chan d := by
      rw [policyOf_map hlog hjson, ho]
    cases part with
    | policy => exact absurd hpart h
    | made => exact fun ho => ho
    | index => exact fun _ dir log db _ _ ho => ho
    | keys => exact fun _ o _ ho => by refine hmap ?_ ?_ o ho <;> exact fun _ => rfl
    | moderation => exact fun _ o _ _ ho => by refine hmap ?_ ?_ o ho <;> exact fun _ => rfl
    | policyFork => exact fun _ o _ _ ho => by refine hmap ?_ ?_ o ho <;> exact fun _ => rfl
    | moderationFork => exact fun _ o _ _ ho => by refine hmap ?_ ?_ o ho <;> exact fun _ => rfl
    | touch => exact fun _ o ho => by refine hmap ?_ ?_ o ho <;> exact fun _ => rfl
    | log => exact fun _ o _ _ ho => by refine hmap ?_ ?_ o ho <;> exact fun _ => rfl
  exact keeps_storeOp hfree d rfl

/-! ## Calls of a session -/

/-- The calls up to the extension of the policy. -/
def Call.OfPolicy (l : Call) : Prop :=
  l = .readPolicyHistory ∨ l = .readChannelPolicy ∨ l = .appendRemotePolicyHistory

/-- A call that writes nothing, or that is none of the policy and leaves it
in force. -/
def Outside (chan : ChannelRef) (β : Type) (l : Call) (x : StoreM β) : Prop :=
  (∀ d, (x.exec d).2 = d) ∨
    (¬ l.OfPolicy ∧ ∀ d, readChannelPolicy chan (x.exec d).2 = readChannelPolicy chan d)

/-- A read is outside of the policy. -/
theorem outside_query {β : Type} {l : Call} (q : ReadM β) :
    Outside chan β l (liftM q) := Or.inl fun _ => rfl

/-- And an operation that touches other parts. -/
theorem outside_op {β : Type} {l : Call} {x : StoreM β} (op : StoreOp)
    (hop : op.op chan' = ignore x) (hparts : Part.policy ∉ op.parts) (hl : ¬ l.OfPolicy) :
    Outside chan β l x := by
  refine Or.inr ⟨hl, fun d => ?_⟩
  rw [← exec_ignore, ← hop]
  exact readChannelPolicy_storeOp hparts d

/-! ## What a session may do -/

/-- The first that the session received, where it has received anything,
is this packet. -/
def Asked (record : Responder.Transcript) (status : StatusMessage) : Prop :=
  ∀ i, opening record = some i → Responder.readStatus i.1 = .ok status

/-- Nothing but the local policy was read. -/
def Early (record : Responder.Transcript) : Prop :=
  ∀ l b, .act l b ∈ record → l = .readPolicyHistory ∨ l = .readChannelPolicy

/-- The policy is left behind. -/
def Settled (record : Responder.Transcript) : Prop :=
  ∃ l b, .act l b ∈ record ∧ ¬ l.OfPolicy

/-- A step that the policy in force allows: a frame to a member, or a
change for a member, which is the one extension of the policy or comes
after it and leaves the policy in force. -/
def Lawful (chan : ChannelRef) (status : StatusMessage) (ev : Event Call Frame)
    (g h : Datadir × Responder.Transcript) : Prop :=
  match ev with
  | .send m => h.1 = g.1 ∧ ((∃ c, m = .challenge c) ∨ Member chan status.requester g.1)
  | .act l => h.1 = g.1 ∨
      (Member chan status.requester g.1 ∧ Early g.2 ∧ l = .appendRemotePolicyHistory ∧
        h.1 = ((appendRemotePolicyHistory chan status.policyEvents).exec g.1).2) ∨
      (Member chan status.requester g.1 ∧ Member chan status.requester h.1 ∧ Settled h.2)

/-- The others may do anything but change the policy in force. -/
def SamePolicy (chan : ChannelRef) (g h : Datadir × Responder.Transcript) : Prop :=
  readChannelPolicy chan h.1 = readChannelPolicy chan g.1 ∧ h.2 = g.2

/-- What a session may count on, and what it owes. -/
def guarding (chan : ChannelRef) (status : StatusMessage) :
    Contract Call Frame (Datadir × Responder.Transcript) where
  rely := SamePolicy chan
  assume _ _ := True
  guarantee ev g h := g.2 <+: h.2 ∧ (Asked h.2 status → Lawful chan status ev g h)
  rely_refl _ := ⟨rfl, rfl⟩
  rely_trans h₁ h₂ := ⟨h₂.1.trans h₁.1, h₂.2.trans h₁.2⟩

/-- What holds where a session waits. -/
def Waits (chan : ChannelRef) (status : StatusMessage) :
    Except Error Responder.Await → Datadir × Responder.Transcript → Prop
  | .ok a, g => (opening g.2 = none ∧ Early g.2 ∧ ∃ m, a = .status m) ∨
      (opening g.2 ≠ none ∧
        (Asked g.2 status → Member chan status.requester g.1 ∧ ∀ m, a ≠ .status m))
  | .error _, _ => True

/-- Membership depends on the policy alone. -/
theorem Member.of_samePolicy {g h : Datadir × Responder.Transcript} (hg : Member chan key g.1)
    (hsame : SamePolicy chan g h) : Member chan key h.1 := by
  obtain ⟨policy, hread, hallows⟩ := hg
  exact ⟨policy, hsame.1.trans hread, hallows⟩

omit [Primitives] in
/-- The first frame stays the first. -/
theorem opening_append (rest : Responder.Transcript) (h : opening record ≠ none) :
    opening (record ++ rest) = opening record := by
  obtain ⟨i, hi⟩ := Option.ne_none_iff_exists'.1 h
  rw [opening, List.findSome?_append, ← opening, hi]
  rfl

omit [Primitives] in
/-- It is the first that is received. -/
theorem opening_receive (i : Incoming × Ambient) (h : opening record = none) :
    opening (record ++ [.receive i]) = some i := by
  rw [opening, List.findSome?_append, ← opening, h]
  rfl

omit [Primitives] in
/-- What was asked at the end was asked from the start. -/
theorem Asked.of_append {rest : Responder.Transcript} (h : Asked (record ++ rest) status) :
    Asked record status := by
  intro i hi
  refine h i ?_
  rw [opening_append rest (by rw [hi]; exact Option.some_ne_none i), hi]

omit [Primitives] in
/-- A session is early until it does more than read the policy. -/
theorem Early.concat (h : Early record) {e : Entry Call Frame (Incoming × Ambient)}
    (he : ∀ l b, e = .act l b → l = .readPolicyHistory ∨ l = .readChannelPolicy) :
    Early (record ++ [e]) := by
  intro l b hmem
  rcases List.mem_append.1 hmem with hmem | hmem
  · exact h l b hmem
  · exact he l b (List.mem_singleton.1 hmem).symm

omit [Primitives] in
/-- An early session has settled nothing. -/
theorem Early.not_settled (h : Early record) : ¬ Settled record := by
  rintro ⟨l, b, hmem, hl⟩
  rcases h l b hmem with rfl | rfl
  · exact hl (Or.inl rfl)
  · exact hl (Or.inr (Or.inl rfl))

/-! ## A member is served -/

/-- What holds once the session was asked and its policy admits the one
who asked. -/
def Served (chan : ChannelRef) (status : StatusMessage) (g : Datadir × Responder.Transcript) :
    Prop :=
  opening g.2 ≠ none ∧ (Asked g.2 status → Member chan status.requester g.1)

/-- A served session stays so while the policy does. -/
theorem Served.of_samePolicy {g h : Datadir × Responder.Transcript} (hg : Served chan status g)
    (hsame : SamePolicy chan g h) : Served chan status h := by
  obtain ⟨hopening, hmember⟩ := hg
  rw [Served, hsame.2]
  exact ⟨hopening, fun hasked => (hmember hasked).of_samePolicy hsame⟩

/-- **A call of a session that serves a member** is lawful, and the member
stays one. -/
theorem Served.act {β : Type} {l : Call} {x : StoreM β} {b : Bool}
    (h : Served chan status (d, record)) (hx : Outside chan β l x) :
    (guarding chan status).guarantee (.act l) (d, record) ((x.exec d).2, record ++ [.act l b]) ∧
      Served chan status ((x.exec d).2, record ++ [.act l b]) := by
  obtain ⟨hopening, hmember⟩ := h
  have hopening' : opening (record ++ [.act l b]) ≠ none := by
    rw [opening_append _ hopening]
    exact hopening
  rcases hx with hx | ⟨hl, hx⟩
  · rw [hx d]
    exact ⟨⟨List.prefix_append _ _, fun _ => Or.inl rfl⟩, hopening',
      fun hasked => hmember hasked.of_append⟩
  · have hstays (hasked : Asked (record ++ [.act l b]) status) :
        Member chan status.requester (x.exec d).2 := by
      obtain ⟨policy, hread, hallows⟩ := hmember hasked.of_append
      exact ⟨policy, (hx d).trans hread, hallows⟩
    have hsettled : Settled (record ++ [.act l b]) := ⟨l, b, by simp, hl⟩
    exact ⟨⟨List.prefix_append _ _, fun hasked =>
      Or.inr (Or.inr ⟨hmember hasked.of_append, hstays hasked, hsettled⟩)⟩, hopening', hstays⟩

/-- A frame to a member. -/
theorem Served.send {m : Frame} (h : Served chan status (d, record)) :
    (guarding chan status).guarantee (.send m) (d, record) (d, record ++ [.send m]) ∧
      Served chan status (d, record ++ [.send m]) := by
  obtain ⟨hopening, hmember⟩ := h
  refine ⟨⟨List.prefix_append _ _, fun hasked => ⟨rfl, Or.inr (hmember hasked.of_append)⟩⟩, ?_,
    fun hasked => hmember hasked.of_append⟩
  rw [opening_append _ hopening]
  exact hopening

/-- **A process that leaves the policy alone** serves a member to its
end. -/
theorem wp_served {α : Type} {p : Session α} (hp : p.Each (Outside chan))
    (h : Served chan status (d, record)) :
    wp transcript (guarding chan status) p (fun _ g => Served chan status g) (d, record) :=
  wp_each hp (fun _ _ hg hsame => hg.of_samePolicy hsame) (fun _ _ _ _ hx hg => hg.act hx)
    (fun _ _ hg => hg.send) h

/-- To where it waits next. -/
theorem waits_of_served {p : Session Responder.Await} (hp : p.Each (Outside chan))
    (hreturns : p.Returns fun a => ∀ m, a ≠ .status m) (h : Served chan status (d, record)) :
    wp transcript (guarding chan status) p (Waits chan status) (d, record) := by
  refine wp_mono ?_ (wp_returns (wp_served hp h) hreturns)
  rintro (e | a) g ⟨hserved, hreturned⟩
  · trivial
  · exact Or.inr ⟨hserved.1, fun hasked => ⟨hserved.2 hasked, hreturned a rfl⟩⟩

/-- A session that was asked otherwise is none of ours. -/
theorem waits_of_not_asked (p : Session Responder.Await) (hopening : opening record ≠ none)
    (hasked : ¬ Asked record status) :
    wp transcript (guarding chan status) p (Waits chan status) (d, record) := by
  have hconcat {record : Responder.Transcript} (e : Entry Call Frame (Incoming × Ambient))
      (h : opening record ≠ none ∧ ¬ Asked record status) :
      opening (record ++ [e]) ≠ none ∧ ¬ Asked (record ++ [e]) status :=
    ⟨by rw [opening_append _ h.1]; exact h.1, fun hasked => h.2 hasked.of_append⟩
  refine wp_mono ?_ (wp_each (I := fun g => opening g.2 ≠ none ∧ ¬ Asked g.2 status) (each_any p)
    ?_ ?_ ?_ ⟨hopening, hasked⟩)
  · rintro (e | a) g ⟨hopening, hasked⟩
    · trivial
    · exact Or.inr ⟨hopening, fun h => absurd h hasked⟩
  · intro g h hg hsame
    rwa [hsame.2]
  · intro β l x g _ hg
    have hnext := hconcat (.act l (x.exec (transcript.view g)).1.isOk) hg
    exact ⟨⟨List.prefix_append _ _, fun h => absurd h hnext.2⟩, hnext⟩
  · intro m g hg
    have hnext := hconcat (.send m) hg
    exact ⟨⟨List.prefix_append _ _, fun h => absurd h hnext.2⟩, hnext⟩

/-! ## What leaves the policy alone -/

namespace Responder

/-- Reading buckets does not touch the policy. -/
theorem outside_readChunks (indices : List ℕ) : (readChunks chan' indices).Each (Outside chan) := by
  induction indices with
  | nil => trivial
  | cons i is ih =>
    have hread : Outside chan (List String) .chunkIds (chunkIds chan' i) :=
      outside_op (.chunkIds i) rfl (by simp [StoreOp.parts]) (by simp [Call.OfPolicy])
    exact (each_call hread).bind fun _ => ih.bind fun _ => trivial

/-- Sending envelopes does not touch the policy. -/
theorem outside_sendMessages (ids : List String) :
    (sendMessages chan' ids).Each (Outside chan) := by
  induction ids with
  | nil => trivial
  | cons id ids ih =>
    have hread : Outside chan Envelope .readMessageById (readMessageById chan' id) :=
      outside_op (.readMessageById id) rfl (by simp [StoreOp.parts])
        (by simp [Call.OfPolicy])
    exact (each_call hread).bind fun _ => ih

/-- Taking in a moderation does not touch the policy. -/
theorem outside_takeModeration (remote : List ModerationEvent) :
    (takeModeration chan' remote).Each (Outside chan) := by
  refine (each_call (outside_query _)).bind fun _ => (each_call (outside_query _)).bind fun _ => ?_
  dsimp only
  split
  · have hsave : Outside chan String .saveModerationConflict
        (saveModerationConflict chan' remote) :=
      outside_op (.saveModerationConflict remote) rfl (by simp [StoreOp.parts])
        (by simp [Call.OfPolicy])
    exact (each_call hsave).bind fun _ => trivial
  split
  · have happend : Outside chan _ .appendRemoteModerationHistory
        (appendRemoteModerationHistory chan' remote) :=
      outside_op (.appendRemoteModerationHistory remote) rfl (by simp [StoreOp.parts])
        (by simp [Call.OfPolicy])
    exact (each_call happend).bind fun _ => trivial
  · trivial

/-- Offering keys does not touch the policy. -/
theorem outside_sendKeys (nonces : ℕ → Bytes) :
    (sendKeys chan' status nonces).Each (Outside chan) := by
  have hidentity (policy : ChannelPolicy) : (serverIdentity policy).Each (Outside chan) := by
    rw [serverIdentity]
    split
    · exact (each_call (outside_query _)).bind fun _ => each_bailIf.bind fun _ => trivial
    · trivial
  have hoffers (identity : Option KeypairFile) :
      (keyOffers chan' status.requester nonces identity).Each (Outside chan) := by
    cases identity with
    | none => trivial
    | some identity => exact each_call (outside_query _)
  exact (each_call (outside_query _)).bind fun policy => each_bailIf.bind fun _ =>
    (hidentity policy).bind fun identity => (hoffers identity).bind fun _ => trivial

/-- Accepting keys does not touch the policy. -/
theorem outside_acceptKeys (requester : String) (policy : ChannelPolicy)
    (identity : Option KeypairFile) (m : KeySync) :
    (acceptKeys chan' requester policy identity m).Each (Outside chan) := by
  refine each_bailIf.bind fun _ => each_bailIf.bind fun _ => (each_except _).bind fun _ => ?_
  cases identity with
  | none => exact each_bailIf
  | some identity =>
    have haccept : Outside chan _ .acceptKeyOffers
        (acceptKeyOffers chan'.fullName identity m.offers) :=
      outside_op (.acceptKeyOffers identity m.offers) rfl (by simp [StoreOp.parts])
        (by simp [Call.OfPolicy])
    exact (each_call haccept).bind fun _ => trivial

/-- Comparing the buckets does not touch the policy. -/
theorem outside_diffChunks (clientChunks : List ChunkSummary) :
    (diffChunks chan' clientChunks).Each (Outside chan) := by
  have hread : Outside chan _ .chunkSummaries (chunkSummaries chan') :=
    outside_op .chunkSummaries rfl (by decide) (by simp [Call.OfPolicy])
  exact (each_call hread).bind fun _ => (each_except _).bind fun _ =>
    (outside_readChunks _).bind fun _ => trivial

/-- The completion makes no call. -/
theorem outside_finishUpload (sent : ℕ) (wanted : Finset String) (received : ℕ) :
    (finishUpload chan' sent wanted received).Each (Outside chan) := by
  rw [finishUpload]
  split <;> trivial

omit [Primitives] in
/-- Behind the uploads no packet is waited for. -/
theorem returns_finishUpload (sent : ℕ) (wanted : Finset String) (received : ℕ) :
    (finishUpload chan' sent wanted received).Returns fun a => ∀ m, a ≠ .status m := by
  rw [finishUpload]
  split <;> exact fun _ => nofun

/-- Exchanging the ids does not touch the policy. -/
theorem outside_exchangeIds (serverChunks : List ChunkIds) (differing : List ℕ)
    (batch : ChunkBatch) (ambient : Ambient) :
    (exchangeIds chan' serverChunks differing batch ambient).Each (Outside chan) :=
  (each_except _).bind fun _ => each_bailIf.bind fun _ => (each_emit _).bind fun _ =>
    (outside_sendMessages _).bind fun _ => outside_finishUpload _ _ _

/-- An upload does not touch the policy. -/
theorem outside_acceptUpload (sent : ℕ) (wanted : Finset String) (received : ℕ)
    (env : Envelope) : (acceptUpload chan' sent wanted received env).Each (Outside chan) := by
  have happend : Outside chan _ .appendMessage (appendMessage chan' env) :=
    outside_op (.appendMessage env) rfl (by simp [StoreOp.parts]) (by simp [Call.OfPolicy])
  exact each_bailIf.bind fun _ => each_bailIf.bind fun _ => (each_except _).bind fun _ =>
    (each_call happend).bind fun _ => outside_finishUpload _ _ _

end Responder

/-! ## From the packet to the keys -/

/-- What holds where a process returned. -/
def Returned {α : Type} (P : Datadir × Responder.Transcript → Prop) :
    Except Error α → Datadir × Responder.Transcript → Prop
  | .ok _, g => P g
  | .error _, _ => True

omit [Primitives] in
/-- Where only a return counts, an error of the first part settles it. -/
theorem wp_returned_bind {α β : Type} {C : Contract Call Frame (Datadir × Responder.Transcript)}
    {p : Session α} {f : α → Session β} {P : Datadir × Responder.Transcript → Prop}
    {Q : Except Error β → Datadir × Responder.Transcript → Prop}
    {g : Datadir × Responder.Transcript} (hp : wp transcript C p (Returned P) g)
    (hf : ∀ a g, P g → wp transcript C (f a) Q g) (herr : ∀ e g, Q (.error e) g) :
    wp transcript C (p >>= f) Q g := by
  refine wp_bind (wp_mono ?_ hp)
  rintro (e | a) h hP
  · exact herr e h
  · exact hf a h hP

/-- A read, of what the others leave as it is. -/
theorem wp_ask {α β : Type} {l : Call} {q : ReadM α} {f : α → Session β}
    {Q : Except Error β → Datadir × Responder.Transcript → Prop}
    (hf : ∀ a d', readChannelPolicy chan d' = readChannelPolicy chan d → q d' = .ok a →
      wp transcript (guarding chan status) (f a) Q (d', record ++ [.act l true]))
    (herr : ∀ e g, Q (.error e) g) :
    wp transcript (guarding chan status) (ask l q >>= f) Q (d, record) := by
  refine wp_act ?_ ?_
  · rintro ⟨d', record'⟩ a t ⟨hsame, hrecord⟩ - hq
    obtain rfl : record' = record := hrecord
    obtain ⟨hread, rfl⟩ : q d' = .ok a ∧ d' = t := Prod.mk.inj hq
    exact ⟨⟨List.prefix_append _ _, fun _ => Or.inl rfl⟩, hf a d' hsame hread⟩
  · rintro ⟨d', record'⟩ e t - - hq
    obtain ⟨-, rfl⟩ : q d' = .error e ∧ d' = t := Prod.mk.inj hq
    exact ⟨⟨List.prefix_append _ _, fun _ => Or.inl rfl⟩, fun i _ => herr e i⟩

/-- The session was asked, has written nothing, and its policy admits the
one who asked. -/
def Admits (chan : ChannelRef) (status : StatusMessage) (g : Datadir × Responder.Transcript) :
    Prop :=
  opening g.2 ≠ none ∧ Early g.2 ∧ Member chan status.requester g.1

/-- **The local policy admits the requester**, or the session ends. -/
theorem wp_admitRequester (hopening : opening record ≠ none) (hearly : Early record) :
    wp transcript (guarding chan status) (Responder.admitRequester chan status.requester)
      (Returned (Admits chan status)) (d, record) := by
  refine wp_ask (fun localPolicy d' _ _ => wp_ask (fun policy d'' _ hpolicy => ?_) ?_) ?_
  · rw [Proc.bailIf_bind]
    split
    · exact fun _ _ => trivial
    · rename_i hallows
      have hadmits : Admits chan status
          (d'', record ++ [.act .readPolicyHistory true] ++ [.act .readChannelPolicy true]) := by
        refine ⟨?_, (hearly.concat ?_).concat ?_, policy, hpolicy, by simpa using hallows⟩
        · rwa [opening_append _ (by rwa [opening_append _ hopening]), opening_append _ hopening]
        · rintro l b ⟨⟩
          exact Or.inl rfl
        · rintro l b ⟨⟩
          exact Or.inr rfl
      rintro h hsame
      obtain ⟨hopening', hearly', hmember⟩ := hadmits
      exact ⟨hsame.2 ▸ hopening', hsame.2 ▸ hearly', hmember.of_samePolicy hsame⟩
  · exact fun _ _ => trivial
  · exact fun _ _ => trivial

/-- **The policy is extended once, for a member**, or a fork is saved and
told to a member. -/
theorem wp_takePolicy {localPolicy : List PolicyEvent} {g : Datadir × Responder.Transcript}
    (h : Admits chan status g) :
    wp transcript (guarding chan status)
      (Responder.takePolicy chan localPolicy status.policyEvents)
      (Returned fun g => opening g.2 ≠ none) g := by
  obtain ⟨hopening, hearly, hmember⟩ := h
  obtain ⟨d, record⟩ := g
  have hserved : Served chan status (d, record) := ⟨hopening, fun _ => hmember⟩
  rw [Responder.takePolicy]
  split
  · have hsave : Outside chan String .savePolicyConflict
        (savePolicyConflict chan status.policyEvents) :=
      outside_op (.savePolicyConflict status.policyEvents) rfl (by simp [StoreOp.parts])
        (by simp [Call.OfPolicy])
    refine wp_mono ?_ (wp_served (p := do
      let _ ← Proc.call .savePolicyConflict (savePolicyConflict chan status.policyEvents)
      Proc.emit (.policySync ⟨"policy_sync", "conflict", localPolicy⟩)
      bail "policy history fork") ((each_call hsave).bind fun _ => trivial) hserved)
    rintro (e | a) g hg
    · trivial
    · exact hg.1
  split
  · have hlawful {d' t : Datadir} {r : Except Error ChannelPolicy} (b : Bool)
        (hsame : SamePolicy chan (d, record) (d', record))
        (hx : (appendRemotePolicyHistory chan status.policyEvents).exec d' = (r, t)) :
        (guarding chan status).guarantee (.act .appendRemotePolicyHistory) (d', record)
          (t, record ++ [.act .appendRemotePolicyHistory b]) := by
      refine ⟨List.prefix_append _ _, fun _ => Or.inr (Or.inl ?_)⟩
      exact ⟨hmember.of_samePolicy hsame, hearly, rfl, by rw [hx]⟩
    refine wp_act ?_ ?_
    · rintro ⟨d', record'⟩ policy t hsame - hx
      obtain rfl : record' = record := hsame.2
      refine ⟨hlawful true hsame hx, fun h hsame => ?_⟩
      change opening h.2 ≠ none
      rw [hsame.2]
      exact (opening_append _ hopening).symm ▸ hopening
    · rintro ⟨d', record'⟩ e t hsame - hx
      obtain rfl : record' = record := hsame.2
      exact ⟨hlawful false hsame hx, fun _ _ => trivial⟩
  · intro h hsame
    change opening h.2 ≠ none
    rw [hsame.2]
    exact hopening

/-- **The reconciled policy admits the requester**, or the session
ends. -/
theorem wp_sendPolicy (hopening : opening record ≠ none) :
    wp transcript (guarding chan status) (Responder.sendPolicy chan status.requester)
      (Returned (Served chan status)) (d, record) := by
  refine wp_ask (fun policy d' _ hpolicy => ?_) fun _ _ => trivial
  rw [Proc.bailIf_bind]
  split
  · exact fun _ _ => trivial
  · rename_i hallows
    have hserved : Served chan status (d', record ++ [.act .readChannelPolicy true]) := by
      refine ⟨?_, fun _ => ⟨policy, hpolicy, by simpa using hallows⟩⟩
      rwa [opening_append _ hopening]
    refine wp_mono ?_ (wp_served (p := do
      let events ← ask .readPolicyHistory (readPolicyHistory chan)
      Proc.emit (.policySync ⟨"policy_sync", "update", events⟩))
      ((each_call (outside_query _)).bind fun _ => trivial) hserved)
    rintro (e | a) g hg
    · trivial
    · exact hg

/-- **From the status packet to the keys.** -/
theorem waits_reconcile (nonces : ℕ → Bytes) (hopening : opening record ≠ none)
    (hearly : Early record) :
    wp transcript (guarding chan status) (Responder.reconcile chan status nonces)
      (Waits chan status) (d, record) := by
  refine wp_returned_bind (wp_admitRequester hopening hearly) (fun localPolicy g hg => ?_)
    fun _ _ => trivial
  refine wp_returned_bind (wp_takePolicy hg) (fun _ g hg => ?_) fun _ _ => trivial
  refine wp_returned_bind (wp_sendPolicy hg) (fun _ g hg => ?_) fun _ _ => trivial
  refine waits_of_served ((Responder.outside_takeModeration _).bind fun _ =>
    ((each_call (outside_query _)).bind fun _ => each_emit _).bind fun _ =>
      Responder.outside_sendKeys _) ?_ hg
  refine Returns.bind fun _ => Returns.bind fun _ => Returns.bind fun _ => Returns.bind fun _ =>
    Returns.bind fun _ => Returns.bind fun _ => ?_
  exact fun _ => nofun

/-! ## Whole sessions -/

variable {identity : KeypairFile} {random : Bytes} {now : Int64}

/-- A session begins by waiting for its packet. -/
theorem waits_start (identity : KeypairFile) (random : Bytes) (now : Int64) :
    wp transcript (guarding chan status) (Responder.start identity random now)
      (Waits chan status) (d, []) := by
  rw [Responder.start]
  cases makeAuthChallenge identity "/sync" random now with
  | error e => exact fun _ _ => trivial
  | ok m =>
    rintro ⟨d', record⟩ hsame -
    obtain rfl : record = [] := hsame.2
    refine ⟨⟨List.prefix_append _ _, fun _ => ⟨rfl, Or.inl ⟨m, rfl⟩⟩⟩, fun h hsame => ?_⟩
    refine Or.inl ⟨?_, ?_, m, rfl⟩
    · rw [hsame.2]
      rfl
    · rw [hsame.2]
      rintro l b hmem
      cases List.mem_singleton.1 hmem

/-- A session reads one status packet. -/
theorem Responder.returns_resume {a : Responder.Await} (i : Incoming × Ambient)
    (ha : ∀ m, a ≠ .status m) :
    (Responder.resume a i).Returns fun a => ∀ m, a ≠ .status m := by
  obtain ⟨i, ambient⟩ := i
  cases a with
  | status m => exact absurd rfl (ha m)
  | keySync chan' status' policy identity =>
    refine Returns.bind fun sync => ?_
    cases sync with
    | none => exact fun _ => nofun
    | some m =>
      refine Returns.bind fun _ => Returns.bind fun _ => Returns.bind fun _ => ?_
      exact Returns.bind fun _ => fun _ => nofun
  | chunkIds chan' serverChunks differing =>
    refine Returns.bind fun batch => ?_
    cases batch with
    | none => exact fun _ => nofun
    | some m =>
      refine Returns.bind fun _ => Returns.bind fun _ => Returns.bind fun _ => ?_
      exact Returns.bind fun _ => Responder.returns_finishUpload _ _ _
  | upload chan' sent wanted received =>
    refine Returns.bind fun env => ?_
    cases env with
    | none => exact fun _ => nofun
    | some m =>
      refine Returns.bind fun _ => Returns.bind fun _ => Returns.bind fun _ => ?_
      exact Returns.bind fun _ => Responder.returns_finishUpload _ _ _
  | done => exact fun _ => nofun

/-- A session that serves a member goes on doing so. -/
theorem waits_resume_served {a : Responder.Await} (i : Incoming × Ambient)
    (ha : ∀ m, a ≠ .status m) (h : Served chan status (d, record)) :
    wp transcript (guarding chan status) (Responder.resume a i) (Waits chan status)
      (d, record) := by
  refine waits_of_served ?_ (Responder.returns_resume i ha) h
  obtain ⟨i, ambient⟩ := i
  cases a with
  | status m => exact absurd rfl (ha m)
  | keySync chan' status' policy identity =>
    refine (each_except _).bind fun sync => ?_
    cases sync with
    | none => trivial
    | some m => exact (Responder.outside_acceptKeys _ _ _ _).bind fun _ =>
        Responder.outside_diffChunks _
  | chunkIds chan' serverChunks differing =>
    refine (each_except _).bind fun batch => ?_
    cases batch with
    | none => trivial
    | some m => exact Responder.outside_exchangeIds _ _ _ _
  | upload chan' sent wanted received =>
    refine (each_except _).bind fun env => ?_
    cases env with
    | none => trivial
    | some m => exact Responder.outside_acceptUpload _ _ _ _
  | done => trivial

/-- **From one point of waiting to the next.** -/
theorem waits_resume (hchannel : ChannelRef.parse status.channel = .ok chan)
    (a : Responder.Await) (i : Incoming × Ambient) (g : Datadir × Responder.Transcript)
    (h : Waits chan status (.ok a) g) :
    wp transcript (guarding chan status) (Responder.resume a i) (Waits chan status)
      (transcript.receive i g) := by
  obtain ⟨d, record⟩ := g
  change wp _ _ _ _ (d, record ++ [.receive i])
  rcases h with ⟨hopening, hearly, m, rfl⟩ | ⟨hopening, hmember⟩
  · have hopening' := opening_receive i hopening
    have hsome : opening (record ++ [.receive i]) ≠ none := by
      rw [hopening']
      exact Option.some_ne_none i
    rw [Responder.resume]
    cases hread : Responder.readStatus i.1 with
    | error e => exact fun _ _ => trivial
    | ok status' =>
      rw [Proc.lift_ok_bind]
      cases hcheck : Responder.checkStatus m status' i.2.now i.2.now' with
      | error e => exact fun _ _ => trivial
      | ok chan' =>
        rw [Proc.lift_ok_bind]
        by_cases hsame : status' = status
        · subst hsame
          obtain rfl : chan' = chan :=
            Except.ok.inj ((verifyBytes_of_checkStatus hcheck).1.symm.trans hchannel)
          refine waits_reconcile i.2.nonces hsome (hearly.concat ?_)
          rintro l b ⟨⟩
        · refine waits_of_not_asked _ hsome fun hasked => hsame ?_
          exact Except.ok.inj (hread.symm.trans (hasked i hopening'))
  · have hsome : opening (record ++ [.receive i]) ≠ none := by
      rwa [opening_append _ hopening]
    by_cases hasked : Asked (record ++ [.receive i]) status
    · obtain ⟨hmember, ha⟩ := hmember hasked.of_append
      exact waits_resume_served i ha ⟨hsome, fun _ => hmember⟩
    · exact waits_of_not_asked _ hsome hasked

/-- One step of a session on a node where nobody else changes the policy
in force. -/
abbrev ServingStep (chan : ChannelRef) :=
  SessionStep transcript (SamePolicy chan) (fun _ _ => True) Responder.resume

/-- A step under the guard is a step. -/
theorem recording_of_serving {s t : (Datadir × Responder.Transcript) × Session Responder.Await}
    {ev : Option (Event Call Frame)} (hstep : ServingStep chan s ev t) :
    Recording Responder.resume s ev t :=
  hstep.mono fun _ _ hsame => hsame.2

variable {s t : (Datadir × Responder.Transcript) × Session Responder.Await}
  {evs : List (Option (Event Call Frame))} {ev : Event Call Frame}
  {g h : Datadir × Responder.Transcript}

/-- Without the policy's consent nothing changes. -/
theorem Lawful.eq_of_not_member (hlawful : Lawful chan status ev g h)
    (hmember : ¬ Member chan status.requester g.1) : h.1 = g.1 := by
  cases ev with
  | send m => exact hlawful.1
  | act l =>
    rcases hlawful with hsame | ⟨h, -⟩ | ⟨h, -⟩
    · exact hsame
    · exact absurd h hmember
    · exact absurd h hmember

/-- Once the policy is left behind, a member stays one. -/
theorem Lawful.member (hlawful : Lawful chan status ev g h) (hsettled : Settled g.2)
    (hmember : Member chan status.requester g.1) : Member chan status.requester h.1 := by
  cases ev with
  | send m => exact hlawful.1 ▸ hmember
  | act l =>
    rcases hlawful with hsame | ⟨-, hearly, -⟩ | ⟨-, h, -⟩
    · exact hsame ▸ hmember
    · exact absurd hsettled hearly.not_settled
    · exact h

/-- A stranger's session leaves its requester a stranger. -/
theorem run_of_not_member (hchannel : ChannelRef.parse status.channel = .ok chan)
    (hrun : Run (ServingStep chan) s evs t)
    (hs : wp transcript (guarding chan status) s.2 (Waits chan status) s.1)
    (hmember : ¬ Member chan status.requester s.1.1) (hasked : Asked t.1.2 status) :
    ¬ Member chan status.requester t.1.1 := by
  have hkept := wp_sessionRun (C := guarding chan status)
    (I := fun g => Asked g.2 status → ¬ Member chan status.requester g.1)
    (waits_resume hchannel) ?_ ?_ ?_ hrun hs fun _ => hmember
  · exact hkept.2 hasked
  · intro g h hg hsame hasked hmember
    refine hg (hsame.2 ▸ hasked) (hmember.of_samePolicy ⟨?_, hsame.2.symm⟩)
    exact hsame.1.symm
  · intro i g hg hasked
    exact hg hasked.of_append
  · intro ev g h hg hguarantee hasked
    obtain ⟨⟨rest, hrest⟩, hlawful⟩ := hguarantee
    have hnot := hg (by rw [← hrest] at hasked; exact hasked.of_append)
    rw [(hlawful hasked).eq_of_not_member hnot]
    exact hnot

/-- A member whom the session has begun to serve stays a member. -/
theorem run_of_settled (hchannel : ChannelRef.parse status.channel = .ok chan)
    (hrun : Run (ServingStep chan) s evs t)
    (hs : wp transcript (guarding chan status) s.2 (Waits chan status) s.1)
    (hsettled : Settled s.1.2) (hmember : Member chan status.requester s.1.1)
    (hasked : Asked t.1.2 status) : Member chan status.requester t.1.1 := by
  have hgrows {record rest : Responder.Transcript} (h : Settled record) :
      Settled (record ++ rest) := by
    obtain ⟨l, b, hmem, hl⟩ := h
    exact ⟨l, b, List.mem_append_left _ hmem, hl⟩
  have hkept := wp_sessionRun (C := guarding chan status)
    (I := fun g => Settled g.2 ∧ (Asked g.2 status → Member chan status.requester g.1))
    (waits_resume hchannel) ?_ ?_ ?_ hrun hs ⟨hsettled, fun _ => hmember⟩
  · exact hkept.2.2 hasked
  · intro g h hg hsame
    exact ⟨hsame.2 ▸ hg.1, fun hasked => (hg.2 (hsame.2 ▸ hasked)).of_samePolicy hsame⟩
  · intro i g hg
    exact ⟨hgrows hg.1, fun hasked => hg.2 hasked.of_append⟩
  · intro ev g h hg hguarantee
    obtain ⟨⟨rest, hrest⟩, hlawful⟩ := hguarantee
    refine ⟨hrest ▸ hgrows hg.1, fun hasked => (hlawful hasked).member hg.1 (hg.2 ?_)⟩
    rw [← hrest] at hasked
    exact hasked.of_append

/-- **Non-members get nothing**, on a node where nobody else changes the
policy in force. A step of a session sends the challenge, or comes after a
status packet; where that packet asks for the channel,

* a frame leaves only where the policy in force admits the requester;
* where the policy at the start does not admit them, nothing changes;
* where the policy at the end does not, nothing changes but by the one
  extension of the policy that a member was let make. -/
theorem nonmembers_get_nothing
    (hrun : Run (ServingStep chan) ((d, []), Responder.start identity random now) evs s)
    (hstep : ServingStep chan s (some ev) t) :
    ((∃ c, ev = .send (.challenge c)) ∧ t.1.1 = s.1.1) ∨
    ∃ status chan', Passed identity random s.1.2 status chan' ∧ (chan' = chan →
      (∀ m, ev = .send m → Member chan status.requester s.1.1) ∧
      (¬ Member chan status.requester d → t.1.1 = s.1.1) ∧
      ∀ evs' u, Run (ServingStep chan) t evs' u → ¬ Member chan status.requester u.1.1 →
        t.1.1 = s.1.1 ∨
          (ev = .act .appendRemotePolicyHistory ∧ Member chan status.requester s.1.1 ∧
            (∀ b, .act .appendRemotePolicyHistory b ∉ s.1.2) ∧
            t.1.1 = ((appendRemotePolicyHistory chan status.policyEvents).exec s.1.1).2)) := by
  obtain ⟨⟨W, record⟩, p⟩ := s
  obtain ⟨⟨Z, record'⟩, q⟩ := t
  have hrecording := hrun.mono fun _ _ _ => recording_of_serving
  have hguarded : wp transcript (recorded (Guarded identity random)) p
      (Responder.Waits identity random) (W, record) :=
    (admitted_of_run guarded_resume hrecording (guarded_start identity random now d) rfl).1
  obtain ⟨e, rfl, hentry⟩ := (wp_sessionStep (C := recorded (Guarded identity random))
    guarded_resume (recording_of_serving hstep) hguarded).2 ev rfl
  have hchallenge (c : AuthChallenge) (he : e = .send (.challenge c)) :
      (∃ c, ev = .send (.challenge c)) ∧ Z = W := by
    cases hstep with
    | advance hadv _ =>
      rcases record_of_advance hadv with ⟨l, b, -, heq⟩ | ⟨m, rfl, rfl, heq⟩
      · obtain rfl := List.singleton_inj.1 (List.append_cancel_left heq)
        cases he
      · obtain rfl := List.singleton_inj.1 (List.append_cancel_left heq)
        cases he
        exact ⟨⟨c, rfl⟩, rfl⟩
  rcases hentry with ⟨c, he⟩ | ⟨status, chan', hpassed⟩
  · exact Or.inl (hchallenge c he)
  by_cases hev : ∃ c, e = .send (.challenge c)
  · obtain ⟨c, he⟩ := hev
    exact Or.inl (hchallenge c he)
  refine Or.inr ⟨status, chan', hpassed, ?_⟩
  rintro rfl
  obtain ⟨i, ambient, hopening, hread, hparse, -⟩ := hpassed
  have hasked (rest : Responder.Transcript) : Asked (record ++ rest) status := by
    intro j hj
    rw [opening_append rest (by rw [hopening]; exact Option.some_ne_none _), hopening] at hj
    cases hj
    exact hread
  have hstart : wp transcript (guarding chan' status) (Responder.start identity random now)
      (Waits chan' status) (d, []) := waits_start identity random now
  have hW : wp transcript (guarding chan' status) p (Waits chan' status) (W, record) :=
    (wp_sessionRun (C := guarding chan' status) (I := fun _ => True) (waits_resume hparse)
      (fun _ _ _ _ => trivial) (fun _ _ _ => trivial) (fun _ _ _ _ _ => trivial) hrun hstart
      trivial).1
  obtain ⟨hZ, hguarantee⟩ := wp_sessionStep (C := guarding chan' status) (waits_resume hparse)
    hstep hW
  have hlawful : Lawful chan' status ev (W, record) (Z, record ++ [e]) :=
    (hguarantee ev rfl).2 (hasked _)
  refine ⟨?_, ?_, ?_⟩
  · rintro m rfl
    rcases hlawful.2 with ⟨c, rfl⟩ | hmember
    · exfalso
      cases hstep with
      | advance hadv _ =>
        rcases record_of_advance hadv with ⟨l, b, hact, -⟩ | ⟨m, hsend, -, heq⟩
        · cases hact
        · cases hsend
          exact hev ⟨c, List.singleton_inj.1 (List.append_cancel_left heq)⟩
    · exact hmember
  · intro hmember
    refine hlawful.eq_of_not_member (run_of_not_member hparse hrun hstart hmember ?_)
    have := hasked []
    rwa [List.append_nil] at this
  · intro evs' u hrun' hmember
    cases ev with
    | send m => exact Or.inl hlawful.1
    | act l =>
      rcases hlawful with hsame | ⟨hm, hearly, rfl, hexec⟩ | ⟨-, hm, hsettled⟩
      · exact Or.inl hsame
      · refine Or.inr ⟨rfl, hm, fun b hmem => ?_, hexec⟩
        rcases hearly _ b hmem with h | h <;> cases h
      · refine absurd (run_of_settled hparse hrun' hZ hsettled hm ?_) hmember
        obtain ⟨rest, hrest⟩ := prefix_record (hrun'.mono fun _ _ _ => recording_of_serving)
        change record ++ [e] ++ rest = u.1.2 at hrest
        rw [← hrest, List.append_assoc]
        exact hasked _

end Membership

/-! ### A stranger asks -/

section Stranger

open Simulated

attribute [local instance] sessionPrimitives

/-- A private channel of one identity. -/
def closedPolicy : ChannelPolicy :=
  { ChannelPolicy.default with
    mode := .restricted, visibility := .private_, owner := some (identity 4).publicKey }

/-- A node that has it. -/
def closedNode : Datadir :=
  ({} : Datadir).put general.fullName { Dir.empty with policyJson := .value closedPolicy }

/-- The node has the channel. -/
theorem getElem?_closedNode : closedNode.channels[general.fullName]? =
    some { Dir.empty with policyJson := .value closedPolicy } := getElem?_put_self _ _ _

/-- The policy of that channel is private. -/
theorem readChannelPolicy_closedNode :
    readChannelPolicy general closedNode = .ok closedPolicy := by
  rw [readChannelPolicy_of_getElem? getElem?_closedNode]
  change checkPolicyCache closedPolicy = .ok closedPolicy
  have hkeys : ((closedPolicy.owner.toList ++ closedPolicy.moderators ++ closedPolicy.writers ++
      closedPolicy.readers).forM validatePublicKey : Except Error Unit) = .ok () := by
    change validatePublicKey (identity 4).publicKey >>= (fun _ => pure ()) = .ok ()
    rw [validatePublicKey_identity]
    rfl
  rw [checkPolicyCache, hkeys]
  rfl

/-- The policy does not name the requester. -/
theorem not_member_request : ¬ Member general request.requester closedNode := by
  rintro ⟨policy, hread, hallows⟩
  obtain rfl := Except.ok.inj (hread.symm.trans readChannelPolicy_closedNode)
  have hkeys : (identity 4).publicKey ≠ (identity 3).publicKey := by
    intro h
    have := hexEncode_injective h
    simp [List.replicate] at this
  have hdenied : policyAllowsRead closedPolicy (identity 3).publicKey = false := by
    simp [policyAllowsRead, closedPolicy, ChannelPolicy.default, hkeys]
  exact absurd (hdenied.symm.trans hallows) (by simp)

/-- What the stranger's session is given. -/
def strangerInput : Incoming × Ambient :=
  (.text { status := some request }, ⟨0, 0, fun _ => [], sortedOrder, sortedOrder⟩)

/-- Whose packet is in order. -/
theorem checkStatus_request : Responder.checkStatus posed request 0 0 = .ok general := by
  have hpassed : Passed (identity 4) sessionNonce
      [.send (.challenge posed), .receive strangerInput] request general := passed_request
  obtain ⟨-, -, -, -, hparse, hverify⟩ := hpassed
  simp only [Responder.checkStatus, bind_eq_ok, bailIf_eq_ok, context_eq_ok, pure_eq_ok]
  exact ⟨(), by simp [request], (), by simp [request, maxPolicyEvents], (),
    by simp [request, maxModerationEvents], (), by simp [request, merkleBucketCount], general,
    hparse, (), by decide, (), by decide, (), hverify, _, derivePolicy_nil, rfl⟩

/-- The session of a stranger, at its first read. -/
theorem run_stranger : ∃ evs p q,
    Run (ServingStep general) ((closedNode, []), Responder.start (identity 4) sessionNonce 0) evs
      ((closedNode, [.send (.challenge posed), .receive strangerInput]), p) ∧
    ServingStep general ((closedNode, [.send (.challenge posed), .receive strangerInput]), p)
      (some (.act .readPolicyHistory)) q := by
  have hstart : Responder.start (identity 4) sessionNonce 0 =
      Proc.send (.challenge posed) (Proc.ret (.status posed)) := by
    rw [Responder.start, makeAuthChallenge_posed]
    rfl
  have hresume : Responder.resume (.status posed) strangerInput =
      Responder.reconcile general request fun _ => [] := by
    have hread : Responder.readStatus strangerInput.1 = .ok request := rfl
    have hcheck : Responder.checkStatus posed request strangerInput.2.now strangerInput.2.now' =
        .ok general := checkStatus_request
    rw [Responder.resume, hread, Proc.lift_ok_bind, hcheck, Proc.lift_ok_bind]
    rfl
  have hread : readPolicyHistory general closedNode = .ok [] := by
    rw [readPolicyHistory_of_getElem? getElem?_closedNode]
    rfl
  obtain ⟨k, hk⟩ : ∃ k, Responder.reconcile general request (fun _ => []) =
      Proc.act .readPolicyHistory (liftM (readPolicyHistory general)) k := ⟨_, rfl⟩
  have hadvance (record : Responder.Transcript) : advance transcript
      (Proc.act .readPolicyHistory (liftM (readPolicyHistory general)) k) (closedNode, record) =
      some (.act .readPolicyHistory, k [],
        (closedNode, record ++ [.act .readPolicyHistory true])) := by
    rw [advance, show transcript.view (closedNode, record) = closedNode from rfl,
      Op.exec_query, hread]
    rfl
  have hrun : Run (ServingStep general)
      ((closedNode, []), Responder.start (identity 4) sessionNonce 0)
      [some (.send (.challenge posed))]
      ((closedNode, [.send (.challenge posed)]), Proc.ret (.status posed)) := by
    rw [hstart]
    exact (Run.nil _).snoc (.advance rfl trivial)
  have hreceived := hrun.snoc (.receive strangerInput)
  rw [hresume, hk] at hreceived
  exact ⟨_, _, _, hreceived, .advance (hadvance _) trivial⟩

/-- The law for that session: nothing changes. -/
theorem nonmembers_get_nothing_stranger : ∃ evs p q,
    Run (ServingStep general) ((closedNode, []), Responder.start (identity 4) sessionNonce 0) evs
      ((closedNode, [.send (.challenge posed), .receive strangerInput]), p) ∧
    ServingStep general ((closedNode, [.send (.challenge posed), .receive strangerInput]), p)
      (some (.act .readPolicyHistory)) q ∧ q.1.1 = closedNode := by
  obtain ⟨evs, p, q, hrun, hstep⟩ := run_stranger
  refine ⟨evs, p, q, hrun, hstep, ?_⟩
  rcases nonmembers_get_nothing hrun hstep with ⟨-, hsame⟩ | ⟨status, chan, hpassed, hlaw⟩
  · exact hsame
  · obtain ⟨i, ambient, hopening, hread, hparse, -⟩ := hpassed
    cases hopening
    cases hread
    have hchan : chan = general :=
      Except.ok.inj (hparse.symm.trans (ChannelRef.parse_fullName general))
    exact (hlaw hchan).2.1 not_member_request

end Stranger

end Embernet
