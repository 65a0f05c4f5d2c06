import Embernet.Log.Buckets
import Embernet.Log.Invariant
import Embernet.Model.Sessions
import Embernet.Store.Forks
/-!
# Calls — a session writes its files through the store

Whatever a session is sent, each of its calls is a read or an operation of
the store on the channel it is about. So what every operation keeps of a
node's files, the sessions keep, on either side.
-/

set_option autoImplicit false

namespace Embernet

open Proc Primitives

variable [Primitives] {chan : ChannelRef}

/-- The calls that a session makes on its channel: reads, and operations of
the store. -/
inductive Stored (chan : ChannelRef) : (β : Type) → Call → StoreM β → Prop
  | readPolicyHistory {l : Call} : Stored chan _ l (liftM (readPolicyHistory chan))
  | readChannelPolicy {l : Call} : Stored chan _ l (liftM (readChannelPolicy chan))
  | deriveModeration {l : Call} (events : List ModerationEvent) :
      Stored chan _ l (liftM (deriveModeration chan events))
  | readModerationHistory {l : Call} : Stored chan _ l (liftM (readModerationHistory chan))
  | loadIdentity {l : Call} (doing : String) :
      Stored chan _ l (liftM (m := ReadM) fun d => context doing (loadIdentity d))
  | makeKeyOffers {l : Call} (identity : KeypairFile) (recipient : String) (nonces : ℕ → Bytes) :
      Stored chan _ l (liftM (makeKeyOffers chan.fullName identity recipient nonces))
  | savePolicyConflict {l : Call} (events : List PolicyEvent) :
      Stored chan _ l (savePolicyConflict chan events)
  | appendRemotePolicyHistory {l : Call} (remote : List PolicyEvent) :
      Stored chan _ l (appendRemotePolicyHistory chan remote)
  | saveModerationConflict {l : Call} (events : List ModerationEvent) :
      Stored chan _ l (saveModerationConflict chan events)
  | appendRemoteModerationHistory {l : Call} (remote : List ModerationEvent) :
      Stored chan _ l (appendRemoteModerationHistory chan remote)
  | acceptKeyOffers {l : Call} (identity : KeypairFile) (offers : List KeyOffer) :
      Stored chan _ l (acceptKeyOffers chan.fullName identity offers)
  | chunkSummaries {l : Call} : Stored chan _ l (chunkSummaries chan)
  | chunkIds {l : Call} (i : ℕ) : Stored chan _ l (chunkIds chan i)
  | readMessageById {l : Call} (id : String) : Stored chan _ l (readMessageById chan id)
  | appendMessage {l : Call} (env : Envelope) : Stored chan _ l (appendMessage chan env)

/-- A call writes nothing, or is an operation on the channel. -/
theorem Stored.writes {β : Type} {l : Call} {x : StoreM β} (hx : Stored chan β l x) :
    (∀ d, (x.exec d).2 = d) ∨ ∃ op : StoreOp, op.op chan = ignore x := by
  cases hx with
  | savePolicyConflict events => exact .inr ⟨.savePolicyConflict events, rfl⟩
  | appendRemotePolicyHistory remote => exact .inr ⟨.appendRemotePolicyHistory remote, rfl⟩
  | saveModerationConflict events => exact .inr ⟨.saveModerationConflict events, rfl⟩
  | appendRemoteModerationHistory remote => exact .inr ⟨.appendRemoteModerationHistory remote, rfl⟩
  | acceptKeyOffers identity offers => exact .inr ⟨.acceptKeyOffers identity offers, rfl⟩
  | chunkSummaries => exact .inr ⟨.chunkSummaries, rfl⟩
  | chunkIds i => exact .inr ⟨.chunkIds i, rfl⟩
  | readMessageById id => exact .inr ⟨.readMessageById id, rfl⟩
  | appendMessage env => exact .inr ⟨.appendMessage env, rfl⟩
  | _ => exact .inl fun _ => rfl

/-- **What the operations keep, a call keeps.** -/
theorem Stored.keeps {β : Type} {l : Call} {x : StoreM β} {I : Datadir → Prop}
    (hx : Stored chan β l x) (hI : ∀ (op : StoreOp) d, I d → I (op.exec chan d)) :
    Op.Keeps I x := by
  intro d hd
  rcases hx.writes with hsame | ⟨op, hop⟩
  · rw [hsame]
    exact hd
  · have h := hI op d hd
    rw [StoreOp.exec, hop, exec_ignore] at h
    exact h

/-- Each bucket is read by an operation of the store. -/
theorem stored_readChunks (indices : List ℕ) : (readChunks chan indices).Each (Stored chan) := by
  induction indices with
  | nil => trivial
  | cons i is ih => exact (each_call (.chunkIds i)).bind fun _ => ih.bind fun _ => trivial

/-- Each envelope is read by an operation of the store. -/
theorem stored_sendMessages (ids : List String) : (sendMessages chan ids).Each (Stored chan) := by
  induction ids with
  | nil => trivial
  | cons id ids ih => exact (each_call (.readMessageById id)).bind fun _ => ih

/-! ## The node that serves -/

namespace Responder

/-- Two reads decide the membership. -/
theorem stored_admitRequester (requester : String) :
    (admitRequester chan requester).Each (Stored chan) :=
  (each_call .readPolicyHistory).bind fun _ => (each_call .readChannelPolicy).bind fun _ =>
    each_bailIf.bind fun _ => trivial

/-- A fork is saved, or a policy appended. -/
theorem stored_takePolicy (localPolicy remote : List PolicyEvent) :
    (takePolicy chan localPolicy remote).Each (Stored chan) := by
  unfold takePolicy
  dsimp only
  split
  · exact (each_call (.savePolicyConflict remote)).bind fun _ => trivial
  split
  · exact (each_call (.appendRemotePolicyHistory remote)).bind fun _ => trivial
  · trivial

/-- The policy is read and sent. -/
theorem stored_sendPolicy (requester : String) : (sendPolicy chan requester).Each (Stored chan) :=
  (each_call .readChannelPolicy).bind fun _ => each_bailIf.bind fun _ =>
    (each_call .readPolicyHistory).bind fun _ => trivial

/-- The same is done of the moderation. -/
theorem stored_takeModeration (remote : List ModerationEvent) :
    (takeModeration chan remote).Each (Stored chan) := by
  refine (each_call (.deriveModeration _)).bind fun _ =>
    (each_call .readModerationHistory).bind fun _ => ?_
  dsimp only
  split
  · exact (each_call (.saveModerationConflict remote)).bind fun _ => trivial
  split
  · exact (each_call (.appendRemoteModerationHistory remote)).bind fun _ => trivial
  · trivial

/-- Which is read and sent in its turn. -/
theorem stored_sendModeration : (sendModeration chan).Each (Stored chan) :=
  (each_call .readModerationHistory).bind fun _ => trivial

/-- Keys are offered from what is read. -/
theorem stored_sendKeys (status : StatusMessage) (nonces : ℕ → Bytes) :
    (sendKeys chan status nonces).Each (Stored chan) := by
  have hidentity (policy : ChannelPolicy) : (serverIdentity policy).Each (Stored chan) := by
    unfold serverIdentity
    split
    · exact (each_call (.loadIdentity _)).bind fun _ => each_bailIf.bind fun _ => trivial
    · trivial
  have hoffers (identity : Option KeypairFile) :
      (keyOffers chan status.requester nonces identity).Each (Stored chan) := by
    cases identity with
    | none => trivial
    | some identity => exact each_call (.makeKeyOffers _ _ _)
  exact (each_call .readChannelPolicy).bind fun policy => each_bailIf.bind fun _ =>
    (hidentity policy).bind fun identity => (hoffers identity).bind fun _ => trivial

/-- From the status packet to the keys. -/
theorem stored_reconcile (status : StatusMessage) (nonces : ℕ → Bytes) :
    (reconcile chan status nonces).Each (Stored chan) :=
  (stored_admitRequester _).bind fun _ => (stored_takePolicy _ _).bind fun _ =>
    (stored_sendPolicy _).bind fun _ => (stored_takeModeration _).bind fun _ =>
      stored_sendModeration.bind fun _ => stored_sendKeys _ _

/-- Offered keys are accepted by one operation. -/
theorem stored_acceptKeys (requester : String) (policy : ChannelPolicy)
    (identity : Option KeypairFile) (m : KeySync) :
    (acceptKeys chan requester policy identity m).Each (Stored chan) := by
  refine each_bailIf.bind fun _ => each_bailIf.bind fun _ => (each_except _).bind fun _ => ?_
  cases identity with
  | none => exact each_bailIf
  | some identity =>
    exact (each_call (.acceptKeyOffers identity m.offers)).bind fun _ => trivial

/-- The comparison reads the buckets. -/
theorem stored_diffChunks (clientChunks : List ChunkSummary) :
    (diffChunks chan clientChunks).Each (Stored chan) :=
  (each_call .chunkSummaries).bind fun _ => (each_except _).bind fun _ =>
    (stored_readChunks _).bind fun _ => trivial

/-- The completion makes no call. -/
theorem stored_finishUpload (sent : ℕ) (wanted : Finset String) (received : ℕ) :
    (finishUpload chan sent wanted received).Each (Stored chan) := by
  unfold finishUpload
  split
  · trivial
  · trivial

/-- The exchange reads envelopes. -/
theorem stored_exchangeIds (serverChunks : List ChunkIds) (differing : List ℕ) (batch : ChunkBatch)
    (ambient : Ambient) :
    (exchangeIds chan serverChunks differing batch ambient).Each (Stored chan) :=
  (each_except _).bind fun _ => each_bailIf.bind fun _ => (each_emit _).bind fun _ =>
    (stored_sendMessages _).bind fun _ => stored_finishUpload _ _ _

/-- An upload is an append. -/
theorem stored_acceptUpload (sent : ℕ) (wanted : Finset String) (received : ℕ) (env : Envelope) :
    (acceptUpload chan sent wanted received env).Each (Stored chan) :=
  each_bailIf.bind fun _ => each_bailIf.bind fun _ => (each_except _).bind fun _ =>
    (each_call (.appendMessage env)).bind fun _ => stored_finishUpload _ _ _

omit [Primitives] in
/-- The channel that a session is about where it waits, once it has one. -/
def Await.channel : Await → Option ChannelRef
  | .status _ | .done => none
  | .keySync chan .. | .chunkIds chan .. | .upload chan .. => some chan

/-- From one point to the next. -/
theorem stored_resume {w : Await} (hw : w.channel = some chan) (i : Incoming × Ambient) :
    (resume w i).Each (Stored chan) := by
  obtain ⟨i, ambient⟩ := i
  cases w with
  | status challenge => cases hw
  | keySync chan' status policy identity =>
    cases hw
    refine (each_except _).bind fun m => ?_
    cases m with
    | none => trivial
    | some m => exact (stored_acceptKeys _ _ _ _).bind fun _ => stored_diffChunks _
  | chunkIds chan' serverChunks differing =>
    cases hw
    refine (each_except _).bind fun m => ?_
    cases m with
    | none => trivial
    | some batch => exact stored_exchangeIds _ _ _ _
  | upload chan' sent wanted received =>
    cases hw
    refine (each_except _).bind fun m => ?_
    cases m with
    | none => trivial
    | some env => exact stored_acceptUpload _ _ _ _
  | done => cases hw

end Responder

/-! ## The node that asks -/

namespace Initiator

/-- On the client's side a policy frame is one operation. -/
theorem stored_takePolicySync (m : PolicySync) : (takePolicySync chan m).Each (Stored chan) := by
  unfold takePolicySync
  split
  · exact (each_call (.savePolicyConflict m.events)).bind fun _ => trivial
  · exact each_bailIf.bind fun _ =>
      (each_call (.appendRemotePolicyHistory m.events)).bind fun _ => trivial

/-- On the client's side a moderation frame is one operation. -/
theorem stored_takeModerationSync (m : ModerationSync) :
    (takeModerationSync chan m).Each (Stored chan) := by
  unfold takeModerationSync
  split
  · exact (each_call (.saveModerationConflict m.events)).bind fun _ => trivial
  · exact each_bailIf.bind fun _ =>
      (each_call (.appendRemoteModerationHistory m.events)).bind fun _ => trivial

/-- A key frame accepts, and reads what is offered. -/
theorem stored_takeKeySync (identity : KeypairFile) (m : KeySync) (nonces : ℕ → Bytes) :
    (takeKeySync chan identity m nonces).Each (Stored chan) := by
  refine (each_except _).bind fun _ => (each_call .readChannelPolicy).bind fun policy =>
    each_bailIf.bind fun _ => ?_
  split
  · exact (each_call (.acceptKeyOffers identity m.offers)).bind fun _ =>
      (each_call (.makeKeyOffers _ _ _)).bind fun _ => trivial
  · exact each_bailIf.bind fun _ => trivial

end Initiator

/-! ## The log -/

section Held

variable {d d' : Datadir} {S T : List Envelope}

/-- The channel's log begins with these records. -/
def Held (chan : ChannelRef) (S : List Envelope) (d : Datadir) : Prop :=
  ∃ later, Orderly chan d (S ++ later)

/-- A log in order begins with all it has. -/
theorem Orderly.held (h : Orderly chan d S) : Held chan S d :=
  ⟨[], by rwa [List.append_nil]⟩

/-- **Whatever operation runs on whichever channel**, the log keeps what it
begins with. -/
theorem Held.node {l : ChannelRef × StoreOp} (h : Held chan S d) (hstep : NodeStep d l d') :
    Held chan S d' := by
  obtain ⟨chan', op⟩ := l
  obtain ⟨later, hlater⟩ := h
  by_cases hchan : chan' = chan
  · subst hchan
    rcases hlater.step hstep with hsame | ⟨env, -, hmore, -⟩
    · exact ⟨later, hsame⟩
    · exact ⟨later ++ [env], by rwa [List.append_assoc] at hmore⟩
  · refine ⟨later, ?_, hlater.channel⟩
    have hkeeps : Op.Keeps (HasDir chan.fullName (IndexedRecords (S ++ later))) (op.op chan') := by
      refine keeps_storeOp fun part _ => ?_
      -- the other channel's files are other files, but for the forks saved beside them
      cases part with
      | made => exact .made
      | policyFork => exact fun _ o _ _ h => h.map fun dir h => ⟨h.log, h.indexed⟩
      | moderationFork => exact fun _ o _ _ h => h.map fun dir h => ⟨h.log, h.indexed⟩
      | _ => exact fun hname => absurd hname (fullName_ne hchan)
    rw [show d' = _ from hstep]
    exact hkeeps d hlater.dir

/-- So does any call of a session, on whichever channel. -/
theorem Stored.held {β : Type} {l : Call} {x : StoreM β} {chan' : ChannelRef}
    (hx : Stored chan' β l x) (h : Held chan S d) : Held chan S (x.exec d).2 :=
  hx.keeps (fun op _ hd => hd.node (show NodeStep _ (chan', op) _ from rfl)) d h

end Held

end Embernet
