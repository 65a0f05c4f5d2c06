import Embernet.Store.Forks
/-!
# Retention — no signed event is lost

Each archive of a channel keeps its invariant through every operation, so
an event that was there is there afterwards, with the id and the payload
it had. Its signature may be spelled differently: a fork is known by its
head, and takes the place of another under that head whatever the
spelling. What a resolution displaces comes back as it was.
-/

set_option autoImplicit false

namespace Embernet

open Primitives

section Signed

variable [Primitives] {chan chan' : ChannelRef} {d : Datadir} {op : StoreOp} {head : String}

/-! ## Every run -/

namespace HistoryKind

variable {Event : Type} (K : HistoryKind Event)

omit [Primitives] in
/-- No event of the kind is in the channel's files. -/
def NoEvents (chan : ChannelRef) (d : Datadir) : Prop :=
  d.fileAt chan.fullName K.file = none ∧ ∀ head, d.savedAt (K.conflictDir chan) head = none

/-- The bytes that the ids of the events hash. -/
def payloads (chan : ChannelRef) (d : Datadir) : Set Bytes :=
  {b | ∃ e, (K.archive chan d).Holds e ∧ b = (K.payload e).compact}

/-- Every event that was in the history in use or in a saved one still is
in one of them, with its id and its payload. -/
def NothingLost (chan : ChannelRef) (d d' : Datadir) : Prop :=
  ∀ e, (K.archive chan d).Holds e →
    ∃ e', (K.archive chan d').Holds e' ∧ K.id e' = K.id e ∧ K.payload e' = K.payload e

variable {K} {d' : Datadir}

omit [Primitives] in
theorem NoEvents.archive (h : K.NoEvents chan d) : K.archive chan d = ⟨[], fun _ => none⟩ := by
  obtain ⟨hfile, hsaved⟩ := h
  have hcurrent : (K.archive chan d).current = [] := current_of_parse (by rw [hfile]; rfl)
  have hnone : (K.archive chan d).saved = fun _ => none := by
    funext head
    change (d.savedAt (K.conflictDir chan) head).bind K.events = none
    rw [hsaved head, Option.bind_none]
  rw [← hcurrent, ← hnone]

theorem NoEvents.kept (h : K.NoEvents chan d) : K.Kept chan d := by
  have hclosed : Ndjson.Terminated ((d.fileAt chan.fullName K.file).getD []) := by
    rw [h.1]
    exact Ndjson.terminated_nil
  refine ⟨hclosed, ?_, ?_⟩
  · rw [h.archive]
    exact fun _ _ hsaved => nomatch hsaved
  · rw [h.archive]
    rintro e (he | ⟨_, _, hsaved, -⟩)
    · cases he
    · cases hsaved

/-- **A step keeps the invariant.** -/
theorem Kept.moves (h : K.Kept chan d) (hmoves : K.Moves chan d d') : K.Kept chan d' := by
  obtain ⟨hstep, hclosed⟩ := hmoves h.closed
  exact ⟨hclosed, h.filed.step hstep, fun _ he => Archive.good_step h.genuine hstep he⟩

/-- **A step loses no event**, where no two payloads hash alike. -/
theorem Kept.nothingLost (h : K.Kept chan d) (hmoves : K.Moves chan d d')
    (hinj : Set.InjOn blake3 (K.payloads chan d ∪ K.payloads chan d')) :
    K.NothingLost chan d d' := by
  obtain ⟨hstep, -⟩ := hmoves h.closed
  have hafter := h.moves hmoves
  have hpayload {a b : Event} (ha : (K.archive chan d).Holds a ∨ (K.archive chan d').Holds a)
      (hb : (K.archive chan d).Holds b ∨ (K.archive chan d').Holds b) (hab : K.id a = K.id b) :
      K.payload a = K.payload b := by
    have hgenuine {e : Event} (he : (K.archive chan d).Holds e ∨ (K.archive chan d').Holds e) :
        K.Genuine e := he.elim (h.genuine e) (hafter.genuine e)
    have hmem {e : Event} (he : (K.archive chan d).Holds e ∨ (K.archive chan d').Holds e) :
        (K.payload e).compact ∈ K.payloads chan d ∪ K.payloads chan d' :=
      he.imp (fun he => ⟨e, he, rfl⟩) fun he => ⟨e, he, rfl⟩
    rw [hgenuine ha, hgenuine hb] at hab
    exact Json.compact_injective (hashHex_inj_on hinj (hmem ha) (hmem hb) hab)
  intro e he
  obtain ⟨e', he', hid⟩ := Archive.holds_step h.filed hstep
    (fun a ha b hb hab => K.previous_eq (hpayload ha hb hab)) he
  exact ⟨e', he', hid, hpayload (Or.inr he') (Or.inl he) hid⟩

end HistoryKind

/-- A node whose channel has no signed event. -/
structure Unsigned (chan : ChannelRef) (d : Datadir) : Prop where
  policy : policyKind.NoEvents chan d
  moderation : moderationKind.NoEvents chan d

/-- Both invariants. -/
structure BothKept (chan : ChannelRef) (d : Datadir) : Prop where
  policy : policyKind.Kept chan d
  moderation : moderationKind.Kept chan d

theorem BothKept.run {d₀ : Datadir} {ls : List (ChannelRef × StoreOp)}
    (hrun : Run NodeStep d₀ ls d) (h₀ : Unsigned chan d₀) : BothKept chan d := by
  refine hrun.invariant ?_ ⟨h₀.policy.kept, h₀.moderation.kept⟩
  rintro d ⟨chan', op⟩ d' h rfl
  exact ⟨h.policy.moves (policy_moves chan' op d), h.moderation.moves (moderation_moves chan' op d)⟩

/-! ### There and back -/

/-- Resolving to another head and then to the displaced one restores the
history there was. -/
def Restores {Event α : Type} (id : Event → String) (readHistory : ReadM (List Event))
    (resolve : String → StoreM α) (d : Datadir) : Prop :=
  ∀ H mine other a d₁, readHistory d = .ok H → H.getLast?.map id = some mine → mine ≠ other →
    (resolve other).exec d = (.ok a, d₁) →
    ∃ a' d₂, (resolve mine).exec d₁ = (.ok a', d₂) ∧ readHistory d₂ = .ok H

omit [Primitives] in
/-- The displaced history is saved under its head. -/
theorem savedAt_displaced {Event : Type} {K : HistoryKind Event} {current : List Event}
    {last : Event} {dir : Dir} (hlast : current.getLast? = some last) (hne : K.id last ≠ head) :
    ((K.displaced chan d head current).put chan.fullName dir).savedAt (K.conflictDir chan)
      (K.id last) = some (K.codec.records current) := by
  rw [Datadir.savedAt, getElem?_put_of_ne (K.conflictDir_ne chan).symm, HistoryKind.displaced,
    hlast]
  simp only [if_neg hne]
  change (d.withFork _ _ _).savedAt (K.conflictDir chan) (K.id last) = _
  rw [savedAt_withFork, Function.update_self]

/-- **A displaced policy history comes back** as it was. -/
theorem restores_policy (chan : ChannelRef) (d : Datadir) :
    Restores PolicyEvent.id (readPolicyHistory chan) (resolvePolicyConflict chan) d := by
  intro H mine other policy d₁ hH hmine hne hexec
  rcases resolvePolicyConflict_ends chan d other with ⟨e, herror⟩ |
    ⟨events, policy', dir, log, current, -, -, hpolicy, hopen, hcurrent, hresolved⟩
  · rw [herror] at hexec
    cases hexec
  obtain ⟨-, hd₁⟩ := Prod.mk.inj (hresolved.symm.trans hexec)
  obtain ⟨hdir, hlog⟩ := openLog_ok.1 hopen
  rw [readPolicyHistory_of_getElem? hdir, hcurrent, Except.ok.injEq] at hH
  subst hH
  obtain ⟨-, policy₀, hpolicy₀⟩ := readPolicyLog_ok.1 hcurrent
  obtain ⟨last, hlast, rfl⟩ := Option.map_eq_some_iff.1 hmine
  -- the other history is in use, and this one is saved
  have hdir₁ : d₁.channels[chan.fullName]? = some { dir with
      policyLog := some (policyCodec.records events), policyJson := .value policy' } := by
    rw [← hd₁, resolvedPolicy, getElem?_put_self]
  have hsaved : readSaved readPolicyEvent (policyConflictDir chan) last.id d₁ = .ok current := by
    refine readSaved_ok.2 ⟨_, ?_, Ndjson.parse_records policyCodec current⟩
    rw [← hd₁]
    exact savedAt_displaced (K := policyKind) hlast hne
  obtain ⟨d₂, hexec₂, hdir₂⟩ := exec_resolvePolicyConflict hsaved hlast hpolicy₀
    (openLog_ok.2 ⟨hdir₁, hlog⟩) (readPolicyLog_records rfl hpolicy)
  refine ⟨policy₀, d₂, hexec₂, ?_⟩
  rw [readPolicyHistory_of_getElem? hdir₂]
  exact readPolicyLog_records rfl hpolicy₀

/-- **And a displaced moderation history.** -/
theorem restores_moderation (chan : ChannelRef) (d : Datadir) :
    Restores ModerationEvent.id (readModerationHistory chan) (resolveModerationConflict chan)
      d := by
  intro H mine other state d₁ hH hmine hne hexec
  rcases resolveModerationConflict_ends chan d other with ⟨e, herror⟩ |
    ⟨events, state', dir, log, current, -, -, hstate, hopen, hcurrent, hresolved⟩
  · rw [herror] at hexec
    cases hexec
  obtain ⟨-, hd₁⟩ := Prod.mk.inj (hresolved.symm.trans hexec)
  obtain ⟨hdir, hlog⟩ := openLog_ok.1 hopen
  rw [readModerationHistory, Query.bind_apply, openDir_ok.2 hdir] at hH
  obtain rfl : current = H := Except.ok.inj (hcurrent.symm.trans hH)
  obtain ⟨last, hlast, rfl⟩ := Option.map_eq_some_iff.1 hmine
  obtain ⟨P, hP, hderived⟩ := (deriveModeration_ok hdir).1 hstate
  obtain ⟨state₀, hderived₀⟩ := ((readModerationLog_ok hdir hP).1 hcurrent).derived
  -- the policy is the same, the other history is in use, and this one is saved
  have hdir₁ : d₁.channels[chan.fullName]? = some { dir with
      moderationLog := some (moderationCodec.records events), moderationJson := some state' } := by
    rw [← hd₁, resolvedModeration, getElem?_put_self]
  have hstate₀ := (deriveModeration_ok hdir₁).2 ⟨P, hP, hderived₀⟩
  have hevents := (readModerationLog_ok hdir₁ hP).2
    ⟨hP, parseHistory_ok.2 (Ndjson.parse_records moderationCodec events), state', hderived⟩
  have hsaved : readSaved readModerationEvent (moderationConflictDir chan) last.id d₁ =
      .ok current := by
    refine readSaved_ok.2 ⟨_, ?_, Ndjson.parse_records moderationCodec current⟩
    rw [← hd₁]
    exact savedAt_displaced (K := moderationKind) hlast hne
  obtain ⟨d₂, hd₂⟩ : ∃ d₂, d₂ = resolvedModeration chan d₁ { dir with
      moderationLog := some (moderationCodec.records events), moderationJson := some state' }
    last.id events current state₀ := ⟨_, rfl⟩
  have hexec₂ := exec_resolveModerationConflict hsaved hlast hstate₀
    (openLog_ok.2 ⟨hdir₁, hlog⟩) hevents
  rw [← hd₂] at hexec₂
  refine ⟨state₀, d₂, hexec₂, ?_⟩
  have hdir₂ : d₂.channels[chan.fullName]? = some { dir with
      moderationLog := some (moderationCodec.records current), moderationJson := some state₀ } := by
    rw [hd₂, resolvedModeration, getElem?_put_self]
  rw [readModerationHistory, Query.bind_apply, openDir_ok.2 hdir₂]
  exact (readModerationLog_ok hdir₂ hP).2
    ⟨hP, parseHistory_ok.2 (Ndjson.parse_records moderationCodec current), state₀, hderived₀⟩

/-- **No signed event is lost.** In every run from a node whose channel
has no signed event, and whatever operation comes next on whichever
channel, every policy event and every moderation event that was in the
history in use or in a saved one still is, with its id and its payload;
and resolving to another head and then to the displaced one restores the
history that was in use. -/
theorem signed_events_kept {d₀ d' : Datadir} {ls : List (ChannelRef × StoreOp)}
    {l : ChannelRef × StoreOp} (hrun : Run NodeStep d₀ ls d) (h₀ : Unsigned chan d₀)
    (hstep : NodeStep d l d')
    (hpolicy : Set.InjOn blake3 (policyKind.payloads chan d ∪ policyKind.payloads chan d'))
    (hmoderation : Set.InjOn blake3
      (moderationKind.payloads chan d ∪ moderationKind.payloads chan d')) :
    policyKind.NothingLost chan d d' ∧ moderationKind.NothingLost chan d d' ∧
      Restores PolicyEvent.id (readPolicyHistory chan) (resolvePolicyConflict chan) d ∧
      Restores ModerationEvent.id (readModerationHistory chan) (resolveModerationConflict chan)
        d := by
  obtain ⟨chan', op⟩ := l
  have hd' : d' = op.exec chan' d := hstep
  subst hd'
  have hkept := BothKept.run hrun h₀
  have hlostPolicy := hkept.policy.nothingLost (policy_moves chan' op d) hpolicy
  have hlostModeration := hkept.moderation.nothingLost (moderation_moves chan' op d) hmoderation
  exact ⟨hlostPolicy, hlostModeration, restores_policy chan d, restores_moderation chan d⟩

end Signed

/-! ## A signature that is spelled differently -/

section Respelled

open Simulated

attribute [local instance] simulated

/-- A signature is read by the bytes it spells. -/
theorem verifyBytes_upperCase (publicKey : String) (sig payload : Bytes) :
    verifyBytes publicKey (upperCase (hexEncode sig)) payload =
      verifyBytes publicKey (hexEncode sig) payload := by
  rw [verifyBytes, verifyBytes, hexDecode_upperCase, hexDecode_hexEncode]

/-- An event with its signature in upper case. -/
def PolicyEvent.upper (e : PolicyEvent) : PolicyEvent := { e with sig := upperCase e.sig }

theorem derivePolicy_upper (ts : Int64) :
    derivePolicy general [(restrictedAt ts).upper] = .ok (ownedPolicy []) := by
  have happly : applyPolicyAction .default (identity 1).publicKey
      (.restrict (identity 1).publicKey) = .ok (ownedPolicy []) := by decide +kernel
  have hverify : verifyBytes (restrictedAt ts).upper.actor (restrictedAt ts).upper.sig
      (restrictedAt ts).upper.signed = .ok () :=
    (verifyBytes_upperCase _ _ _).trans (verifyBytes_signatureOf 1 _)
  have hstep : derivePolicyStep general .start (restrictedAt ts).upper =
      .ok ⟨ownedPolicy [], some (restrictedAt ts).upper.id⟩ :=
    derivePolicyStep_ok.2 ⟨rfl, rfl, rfl, hverify, happly, rfl⟩
  exact derivePolicy_ok.2 ⟨_, Replay.replay_cons_ok.2 ⟨_, hstep, rfl⟩, rfl⟩

theorem upper_ne : (restrictedAt 0).upper ≠ restrictedAt 0 := by
  intro h
  have hsig := congrArg PolicyEvent.sig h
  revert hsig
  decide +kernel

theorem unsigned_newNode : Unsigned general newNode := by
  have hdir : newNode.channels[general.fullName]? = some newDir := getElem?_put_self _ _ _
  have hsaved {path : String} (h : path ≠ general.fullName) (head : String) :
      newNode.savedAt path head = none := by
    rw [Datadir.savedAt, newNode, getElem?_put_of_ne h.symm]
    simp
  constructor
  · refine ⟨?_, hsaved (policyConflictDir_ne general)⟩
    rw [Datadir.fileAt, hdir]
    rfl
  · refine ⟨?_, hsaved (moderationConflictDir_ne general)⟩
    rw [Datadir.fileAt, hdir]
    rfl

/-- The node with a history of one event saved. -/
noncomputable def withEvent (d : Datadir) (e : PolicyEvent) : Datadir :=
  d.withFork (policyConflictDir general) e.id (policyCodec.records [e])

theorem step_withEvent {d : Datadir} {e : PolicyEvent} {policy : ChannelPolicy}
    (h : derivePolicy general [e] = .ok policy) :
    NodeStep d (general, .savePolicyConflict [e]) (withEvent d e) :=
  eq_exec_ignore (exec_savePolicyConflict_of_ok h List.getLast?_singleton)

theorem archive_withEvent {d : Datadir} {e : PolicyEvent} :
    policyKind.archive general (withEvent d e) = (policyKind.archive general d).save e.id [e] :=
  HistoryKind.archive_withFork (K := policyKind)

/-- What a node holds that saved one history, or two under one head. -/
theorem holds_withEvent {a b : PolicyEvent} (hab : b.id = a.id) (e : PolicyEvent) :
    ((policyKind.archive general (withEvent newNode a)).Holds e ↔ e = a) ∧
      ((policyKind.archive general (withEvent (withEvent newNode a) b)).Holds e ↔ e = b) := by
  rw [archive_withEvent, archive_withEvent, archive_withEvent, unsigned_newNode.policy.archive, hab]
  have hone {s : Archive String PolicyEvent} {c : PolicyEvent} (hcurrent : s.current = [])
      (hsaved : ∀ head ≠ a.id, s.saved head = none) : (s.save a.id [c]).Holds e ↔ e = c := by
    constructor
    · rintro (he | ⟨head, events, h, he⟩)
      · have hnil : e ∈ s.current := he
        rw [hcurrent] at hnil
        cases hnil
      · by_cases heq : head = a.id
        · subst heq
          rw [Archive.saved_save, Option.some.injEq] at h
          subst h
          exact List.mem_singleton.1 he
        · rw [Archive.saved_save_of_ne heq, hsaved head heq] at h
          cases h
    · rintro rfl
      exact Or.inr ⟨_, _, Archive.saved_save, List.mem_singleton_self _⟩
  exact ⟨hone rfl fun _ _ => rfl, hone rfl fun head hne => Archive.saved_save_of_ne hne⟩

/-- **A spelling may be lost**: a node saves a history, and then the same
history with one signature in upper case. -/
theorem spelling_replaced :
    ∃ d d', Unsigned general newNode ∧
      Run NodeStep newNode [(general, .savePolicyConflict [restrictedAt 0])] d ∧
      NodeStep d (general, .savePolicyConflict [(restrictedAt 0).upper]) d' ∧
      (policyKind.archive general d).Holds (restrictedAt 0) ∧
      ¬ (policyKind.archive general d').Holds (restrictedAt 0) := by
  have hid : (restrictedAt 0).upper.id = (restrictedAt 0).id := rfl
  have hsame := holds_withEvent hid (restrictedAt 0)
  refine ⟨_, _, unsigned_newNode, .snoc (.nil _) (step_withEvent (derivePolicy_restrictedAt 0)),
    step_withEvent (derivePolicy_upper 0), hsame.1.2 rfl, fun h => ?_⟩
  exact upper_ne (hsame.2.1 h).symm

/-- Saving a policy history is nothing to the moderation. -/
theorem moderation_withEvent {d : Datadir} {e : PolicyEvent}
    (h : moderationKind.NoEvents general d) : moderationKind.NoEvents general (withEvent d e) := by
  obtain ⟨hfile, hsaved⟩ := h
  have hne : policyConflictDir general ≠ moderationConflictDir general :=
    moderationConflictDir_ne_policyConflictDir.symm
  constructor
  · rw [withEvent, fileAt_withFork rfl (policyConflictDir_ne general)]
    exact hfile
  · intro head
    rw [withEvent]
    exact (congrFun (savedAt_withFork_of_ne hne) head).trans (hsaved head)

theorem payloads_of_noEvents {d : Datadir} (h : moderationKind.NoEvents general d) :
    moderationKind.payloads general d = ∅ := by
  refine Set.eq_empty_of_forall_notMem ?_
  rintro _ ⟨e, he, -⟩
  rw [h.archive] at he
  rcases he with he | ⟨_, _, hsaved, -⟩
  · cases he
  · cases hsaved

/-- The law for that node: the event is kept in its other spelling. -/
theorem signed_events_kept_respelled :
    ∃ d d', Run NodeStep newNode [(general, .savePolicyConflict [restrictedAt 0])] d ∧
      NodeStep d (general, .savePolicyConflict [(restrictedAt 0).upper]) d' ∧
      policyKind.NothingLost general d d' ∧ moderationKind.NothingLost general d d' ∧
      Restores PolicyEvent.id (readPolicyHistory general) (resolvePolicyConflict general) d ∧
      Restores ModerationEvent.id (readModerationHistory general)
        (resolveModerationConflict general) d := by
  have hrun : Run NodeStep newNode [(general, .savePolicyConflict [restrictedAt 0])]
      (withEvent newNode (restrictedAt 0)) :=
    .snoc (.nil _) (step_withEvent (derivePolicy_restrictedAt 0))
  have hstep := step_withEvent (d := withEvent newNode (restrictedAt 0)) (derivePolicy_upper 0)
  have hid : (restrictedAt 0).upper.id = (restrictedAt 0).id := rfl
  have hone : policyKind.payloads general (withEvent newNode (restrictedAt 0)) ∪
      policyKind.payloads general
        (withEvent (withEvent newNode (restrictedAt 0)) (restrictedAt 0).upper) ⊆
      {(restrictedAt 0).payload.compact} := by
    rintro b (⟨e, he, rfl⟩ | ⟨e, he, rfl⟩)
    · obtain rfl := (holds_withEvent hid e).1.1 he
      rfl
    · obtain rfl := (holds_withEvent hid e).2.1 he
      rfl
  have hpolicy := (Set.injOn_singleton blake3 (restrictedAt 0).payload.compact).mono hone
  have hnone := moderation_withEvent (e := restrictedAt 0) unsigned_newNode.moderation
  have hmoderation : Set.InjOn blake3
      (moderationKind.payloads general (withEvent newNode (restrictedAt 0)) ∪
        moderationKind.payloads general
          (withEvent (withEvent newNode (restrictedAt 0)) (restrictedAt 0).upper)) := by
    rw [payloads_of_noEvents hnone, payloads_of_noEvents (moderation_withEvent hnone),
      Set.empty_union]
    exact Set.injOn_empty _
  exact ⟨_, _, hrun, hstep, signed_events_kept hrun unsigned_newNode hstep hpolicy hmoderation⟩

end Respelled

end Embernet
