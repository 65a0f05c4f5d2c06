import Embernet.Keys.Rotation
import Embernet.Sync.Transfer
/-!
# Revoking — a revocation beside a session

A revocation reads the policy, makes a key, and appends its event, each
under locks of its own, and a session on the same node may run between the
three. The session reads the policy before it reads the keys. Where the
policy it has read is the one before the event, and the keys are the ones
behind the new one, the identity that is being revoked is sent the key that
was made to shut it out. In every other order it is not.
-/

set_option autoImplicit false

namespace Embernet

open Proc Primitives

/-! ## The revocation, step by step -/

/-- How far `revoke_role` has come, and at its end whether it has made a
key. -/
inductive Revocation
  | start
  | checked (policy : ChannelPolicy)
  | rotated
  | appended (rotated : Bool) (policy : ChannelPolicy)
  | failed
  deriving DecidableEq

namespace Revocation

/-- Whether the key is made. -/
def Made : Revocation → Prop
  | .rotated | .appended true _ => True
  | _ => False

/-- Whether the event is appended. -/
def Appended (r : Revocation) : Prop := ∃ rotated policy, r = .appended rotated policy

/-- What it returns at its end. -/
def result [Primitives] : Revocation → StoreM ChannelPolicy
  | .appended _ policy => pure policy
  | _ => bail "the revocation has not ended"

end Revocation

/-- A call of `revoke_role`, with the bytes it draws and the clocks it
reads. -/
structure RevokeCall where
  chan : ChannelRef
  signer : KeypairFile
  role : PolicyRole
  publicKey : String
  raw : Bytes
  now : Int64
  now' : Int64

section Steps

variable [Primitives] {call : RevokeCall} {d d' : Datadir}

namespace RevokeCall

/-- The append of its event. -/
def append (call : RevokeCall) : StoreM ChannelPolicy :=
  appendPolicyAction call.chan call.signer call.now call.now' (.revoke call.role call.publicKey)

/-- The next step of the revocation. -/
def next (call : RevokeCall) : Revocation → StoreM Revocation
  | .start => do
    let current ← checkRevoke call.chan call.signer call.role call.publicKey
    pure (.checked current)
  | .checked current =>
    if current.visibility = .private_ then do
      let _ ← generateChannelKey call.chan.fullName call.raw
      pure .rotated
    else do
      let policy ← call.append
      pure (.appended false policy)
  | .rotated => do
    let policy ← call.append
    pure (.appended true policy)
  | r => pure r

/-- **The steps in sequence are the operation.** -/
theorem revokeRole_eq (call : RevokeCall) :
    revokeRole call.chan call.signer call.role call.publicKey call.raw call.now call.now' = (do
      let r ← call.next .start
      let r ← call.next r
      let r ← call.next r
      r.result) := by
  simp only [revokeRole, next, bind_assoc, pure_bind]
  refine congrArg _ (funext fun current => ?_)
  by_cases hprivate : current.visibility = .private_
  · simp only [if_pos hprivate, bind_assoc, pure_bind, Revocation.result, append, bind_pure]
  · simp only [if_neg hprivate, bind_assoc, pure_bind, Revocation.result, append, bind_pure]

end RevokeCall

/-! ## The two on one node -/

/-- A node on which a role is revoked while a session runs: its files, how
far the revocation is, and what the session has done, each with how far the
revocation was. -/
structure Desk where
  dir : Datadir
  revocation : Revocation
  record : List (Revocation × Entry Call Frame (Incoming × Ambient))

/-- The session works on the files, and its steps are recorded. -/
def desk : Host Datadir Call Frame (Incoming × Ambient) Desk where
  view := Desk.dir
  act l returned d g := { g with dir := d, record := g.record ++ [(g.revocation, .act l returned)] }
  emit m g := { g with record := g.record ++ [(g.revocation, .send m)] }
  receive i g := { g with record := g.record ++ [(g.revocation, .receive i)] }

/-- One step of the revocation. -/
def Desk.revoke (call : RevokeCall) (g : Desk) : Desk :=
  match (call.next g.revocation).exec g.dir with
  | (.ok r, d) => { g with dir := d, revocation := r }
  | (.error _, d) => { g with dir := d, revocation := .failed }

/-- Some steps of the revocation. -/
def Revokes (call : RevokeCall) : Desk → Desk → Prop :=
  Relation.ReflTransGen fun g h => h = g.revoke call

/-- How far the revocation was when the session last read the policy. -/
def checkedAt (record : List (Revocation × Entry Call Frame (Incoming × Ambient))) :
    Option Revocation :=
  (record.filterMap fun
    | (r, .act .readChannelPolicy true) => some r
    | _ => none).getLast?

/-- The session has not read the policy since the event was appended. -/
def Desk.Stale (g : Desk) : Prop := ¬ ∃ r, checkedAt g.record = some r ∧ r.Appended

/-- The key is made, and the policy that the session goes by is one from
before the event. -/
def Desk.Straddles (g : Desk) : Prop := g.revocation.Made ∧ g.Stale

/-- A message that offers the revoked identity the key of the
revocation. -/
def Leaks (call : RevokeCall) : Frame → Prop
  | .keySync sync => ∃ offer ∈ sync.offers, offer.channel = call.chan.fullName ∧
      offer.recipient = call.publicKey ∧ offer.keyId = hashHex call.raw
  | _ => False

/-- No message has. -/
def Withheld (call : RevokeCall) (g : Desk) : Prop :=
  ∀ r m, (r, .send m) ∈ g.record → ¬ Leaks call m

/-! ## What is offered -/

/-- Every offer is of a key that the keyring has, and names the recipient.
-/
theorem mem_makeKeyOffers {channel recipient : String} {me : KeypairFile} {nonces : ℕ → Bytes}
    {offers : List KeyOffer} (h : makeKeyOffers channel me recipient nonces d = .ok offers)
    {offer : KeyOffer} (hoffer : offer ∈ offers) :
    offer.channel = channel ∧ offer.recipient = recipient ∧
      ∃ keys, loadKeys channel d = .ok keys ∧ ∃ key ∈ keys, offer.keyId = key.id := by
  rw [makeKeyOffers, Query.bind_ok] at h
  obtain ⟨keys, hload, h⟩ := h
  obtain ⟨i, hi, rfl⟩ := List.getElem_of_mem hoffer
  have hmade := mapM_ok_iff.1 h
  have hi' : i < keys.zipIdx.length := by
    rw [hmade.length_eq]
    exact hi
  have hlt : i < keys.length := by
    rwa [List.length_zipIdx] at hi'
  have hone := hmade.get hi' hi
  simp only [List.get_eq_getElem, List.getElem_zipIdx, makeKeyOffer, bind_eq_ok, pure_eq_ok] at hone
  obtain ⟨_, -, _, -, _, -, hone⟩ := hone
  rw [← hone]
  exact ⟨rfl, rfl, keys, hload, keys[i], List.getElem_mem hlt, rfl⟩

/-! ## What a step of the revocation does -/

variable {g h : Desk} {keyring : JsonFile (List ChannelKey)}

/-- Until the key is made, the keyring is what it was. -/
def Unrotated (call : RevokeCall) (keyring : JsonFile (List ChannelKey)) (g : Desk) : Prop :=
  ¬ g.revocation.Made → g.revocation ≠ .failed → KeyringIs call.chan keyring g.dir

/-- An append leaves the keyring. -/
theorem append_keeps (call : RevokeCall) :
    Op.Keeps (KeyringIs call.chan keyring) call.append := by
  intro d hd
  have hends : Op.FailsOr call.append d fun result => ∃ after, result.1 = .ok after :=
    appendPolicyAction_failsOr
  rcases hends with ⟨e, hexec⟩ | ⟨after, hexec⟩
  · rw [hexec]
    exact hd
  · obtain ⟨dir, log, P, cached, added, hopen, -, -, -, -, hafter⟩ :=
      exec_appendPolicyAction_ok.1 (Prod.ext hexec rfl)
    have hafter' : (call.append.exec d).2 =
        d.put call.chan.fullName (appendPolicyRecords added after dir) := hafter
    rw [KeyringIs, DirIs, (openLog_ok.1 hopen).1] at hd
    rw [hafter', KeyringIs, DirIs, getElem?_put_self]
    exact hd

/-- The revocation sends and receives nothing. -/
theorem revoke_record (call : RevokeCall) (g : Desk) : (g.revoke call).record = g.record := by
  rw [Desk.revoke]
  split <;> rfl

/-- A revocation that has failed stays so. -/
theorem revoke_failed (h : g.revocation = .failed) : g.revoke call = g := by
  obtain ⟨dir, revocation, record⟩ := g
  obtain rfl : revocation = .failed := h
  rfl

/-- So far as the revocation has come, the keyring is as its state says. -/
theorem Unrotated.revoke (h : Unrotated call keyring g) :
    Unrotated call keyring (g.revoke call) := by
  obtain ⟨dir, revocation, record⟩ := g
  cases revocation with
  | start =>
    have hdir : KeyringIs call.chan keyring dir := h id nofun
    rw [Desk.revoke, RevokeCall.next]
    dsimp only
    split
    · rename_i r d' hexec
      simp only [Op.exec_bind_ok, Op.exec_query, Op.exec_pure, Prod.mk.injEq] at hexec
      obtain ⟨_, _, ⟨-, rfl⟩, -, rfl⟩ := hexec
      exact fun _ _ => hdir
    · exact fun _ hne => absurd rfl hne
  | checked current =>
    have hdir : KeyringIs call.chan keyring dir := h id nofun
    rw [Desk.revoke, RevokeCall.next]
    dsimp only
    split
    · rename_i r d' hexec
      by_cases hprivate : current.visibility = .private_
      · rw [if_pos hprivate, Op.exec_bind_ok] at hexec
        obtain ⟨_, _, -, hexec⟩ := hexec
        cases hexec
        exact fun hmade => absurd trivial hmade
      · rw [if_neg hprivate, Op.exec_bind_ok] at hexec
        obtain ⟨after, d₁, hexec₁, hexec⟩ := hexec
        cases hexec
        intro _ _
        have hkept := append_keeps call dir hdir
        rwa [hexec₁] at hkept
    · exact fun _ hne => absurd rfl hne
  | rotated =>
    rw [Desk.revoke, RevokeCall.next]
    dsimp only
    split
    · rename_i r d' hexec
      rw [Op.exec_bind_ok] at hexec
      obtain ⟨after, d₁, hexec₁, hexec⟩ := hexec
      cases hexec
      exact fun hmade => absurd trivial hmade
    · exact fun _ hne => absurd rfl hne
  | appended rotated policy => exact h
  | failed => exact h

/-! ## The session beside it -/

/-- Unless the revocation has failed, nothing has leaked. -/
def Kept (call : RevokeCall) (g : Desk) : Prop := g.revocation ≠ .failed → Withheld call g

/-- **When the session may take a step**: behind the event the policy in
force shuts the revoked identity out, and the keys are not offered where
the session straddles the revocation. -/
def Timely (call : RevokeCall) (ev : Event Call Frame) (g : Desk) : Prop :=
  (g.revocation.Appended → ShutAt call.chan call.publicKey g.dir) ∧
    (ev = .act .makeKeyOffers → ¬ g.Straddles)

/-- What a session may count on beside a revocation, and what it owes. -/
def withholding (call : RevokeCall) : Contract Call Frame Desk where
  rely := Revokes call
  assume := Timely call
  guarantee _ g h := Kept call g → Kept call h
  rely_refl _ := .refl
  rely_trans := .trans

/-- What the revocation keeps, any number of its steps keep. -/
theorem Revokes.unrotated (hrely : Revokes call g h) (hg : Unrotated call keyring g) :
    Unrotated call keyring h := by
  induction hrely with
  | refl => exact hg
  | tail _ hstep ih =>
    rw [hstep]
    exact ih.revoke

/-- No step of a revocation is in the record. -/
theorem Revokes.record (hrely : Revokes call g h) : h.record = g.record := by
  induction hrely with
  | refl => rfl
  | tail _ hstep ih => rw [hstep, revoke_record, ih]

/-- A revocation that failed stays where it is. -/
theorem Revokes.failed (hrely : Revokes call g h) (hg : g.revocation = .failed) :
    h.revocation = .failed := by
  induction hrely with
  | refl => exact hg
  | tail _ hstep ih =>
    rw [hstep, revoke_failed ih]
    exact ih

/-- What was withheld up to then is withheld. -/
theorem Revokes.kept (hrely : Revokes call g h) (hg : Kept call g) : Kept call h := by
  intro hne
  rw [Withheld, hrely.record]
  exact hg fun hfailed => hne (hrely.failed hfailed)

/-- One more entry that is no leak. -/
theorem withheld_concat {e : Revocation × Entry Call Frame (Incoming × Ambient)}
    (hg : Withheld call g) (he : ∀ r m, e = (r, .send m) → ¬ Leaks call m) (dir : Datadir) :
    Withheld call { g with dir := dir, record := g.record ++ [e] } := by
  intro r m hmem
  rcases List.mem_append.1 hmem with hmem | hmem
  · exact hg r m hmem
  · exact he r m (List.mem_singleton.1 hmem).symm

/-- A call leaks nothing. -/
theorem Kept.act (l : Call) (b : Bool) (dir : Datadir) (hg : Kept call g) :
    Kept call (desk.act l b dir g) := by
  intro hne
  refine withheld_concat (hg hne) ?_ dir
  rintro r m ⟨⟩

/-- A frame that leaks nothing keeps what was withheld. -/
theorem Kept.emit {m : Frame} (hm : ¬ Leaks call m) (hg : Kept call g) :
    Kept call (desk.emit m g) := by
  intro hne
  refine withheld_concat (hg hne) ?_ g.dir
  rintro r m' ⟨⟩
  exact hm

/-- No channel keys. -/
def Keyless (m : Frame) : Prop := ∀ sync, m ≠ .keySync sync

/-- A frame without offers cannot leak a key. -/
theorem Keyless.not_leaks {m : Frame} (hm : Keyless m) : ¬ Leaks call m := by
  cases m with
  | keySync sync => exact absurd rfl (hm sync)
  | _ => exact id

variable {α β : Type} {f : α → Session β} {Q : Except Error β → Desk → Prop}

/-- **Before the keys**: what leaves the keyring and sends none. -/
theorem wp_keyless_bind {p : Session α} (hp : p.Each (KeepsKeyring call.chan keyring))
    (hsends : p.Sends Keyless)
    (hf : ∀ a g, Unrotated call keyring g → wp desk (withholding call) (f a) Q g)
    (herr : ∀ e g, Q (.error e) g) (hg : Unrotated call keyring g) :
    wp desk (withholding call) (p >>= f) Q g := by
  refine wp_bind (wp_mono ?_ (wp_each_sends (I := Unrotated call keyring) hp hsends ?_ ?_ ?_ hg))
  · rintro (e | a) h hh
    · exact herr e h
    · exact hf a h hh
  · exact fun g h hg hrely => Revokes.unrotated hrely hg
  · intro β l x g hx hg
    exact ⟨fun hkept => hkept.act _ _ _, fun hmade hne => hx g.dir (hg hmade hne)⟩
  · intro m g hm hg
    exact ⟨fun hkept => hkept.emit hm.not_leaks, hg⟩

/-- A read, and where it is made. -/
theorem wp_desk_ask {l : Call} {q : ReadM α}
    (hf : ∀ a h, Revokes call g h → Timely call (.act l) h → q h.dir = .ok a →
      wp desk (withholding call) (f a) Q (desk.act l true h.dir h))
    (herr : ∀ e g, Q (.error e) g) :
    wp desk (withholding call) (ask l q >>= f) Q g := by
  refine wp_act ?_ ?_
  · intro h a t hrely htimely hq
    obtain ⟨hread, rfl⟩ : q h.dir = .ok a ∧ h.dir = t := Prod.mk.inj hq
    exact ⟨fun hkept => hkept.act _ _ _, hf a h hrely htimely hread⟩
  · intro h e t hrely htimely hq
    exact ⟨fun hkept => hkept.act _ _ _, fun i _ => herr e i⟩

omit [Primitives] in
/-- The last read of the policy counts. -/
theorem checkedAt_concat (record : List (Revocation × Entry Call Frame (Incoming × Ambient)))
    (r : Revocation) : checkedAt (record ++ [(r, .act .readChannelPolicy true)]) = some r := by
  rw [checkedAt, List.filterMap_append]
  exact List.getLast?_concat ..

omit [Primitives] in
/-- Other calls are no such read. -/
theorem checkedAt_act (record : List (Revocation × Entry Call Frame (Incoming × Ambient)))
    (r : Revocation) {l : Call} (hl : l ≠ .readChannelPolicy) (b : Bool) :
    checkedAt (record ++ [(r, .act l b)]) = checkedAt record := by
  rw [checkedAt, List.filterMap_append]
  cases l <;> simp_all [checkedAt]

omit [Primitives] in
/-- A channel is its name. -/
theorem eq_of_fullName {chan chan' : ChannelRef} (h : chan.fullName = chan'.fullName) :
    chan = chan' := by
  cases chan
  cases chan'
  cases h
  rfl

/-- What holds where a session that serves `requester` has been let
through: unless it asks as another, or for another channel, the policy it
goes by is from before the event. -/
structure Cleared (call : RevokeCall) (keyring : JsonFile (List ChannelKey)) (chan : ChannelRef)
    (requester : String) (g : Desk) : Prop where
  unrotated : Unrotated call keyring g
  stale : chan.fullName = call.chan.fullName → requester = call.publicKey → g.Stale

variable {chan : ChannelRef} {requester : String}

/-- The clearance holds however far the revocation goes meanwhile. -/
theorem Cleared.rely (hg : Cleared call keyring chan requester g) (hrely : Revokes call g h) :
    Cleared call keyring chan requester h := by
  refine ⟨hrely.unrotated hg.unrotated, fun hchan hkey => ?_⟩
  rw [Desk.Stale, hrely.record]
  exact hg.stale hchan hkey

omit [Primitives] in
/-- And over every call that is no read of the policy. -/
theorem Cleared.act {l : Call} (hl : l ≠ .readChannelPolicy) (b : Bool)
    (hg : Cleared call keyring chan requester g) :
    Cleared call keyring chan requester (desk.act l b g.dir g) := by
  refine ⟨hg.unrotated, fun hchan hkey => ?_⟩
  rw [Desk.Stale, desk, checkedAt_act _ _ hl]
  exact hg.stale hchan hkey

/-- The identity that serves is found behind the check of the policy. -/
theorem wp_serverIdentity_bind {f : Option KeypairFile → Session β} (policy : ChannelPolicy)
    (hf : ∀ identity g, Cleared call keyring chan requester g →
      wp desk (withholding call) (f identity) Q g)
    (herr : ∀ e g, Q (.error e) g) (hg : Cleared call keyring chan requester g) :
    wp desk (withholding call) (Responder.serverIdentity policy >>= f) Q g := by
  have heach : (Responder.serverIdentity policy).Each
      fun β l x => (∀ d, (x.exec d).2 = d) ∧ l ≠ .readChannelPolicy := by
    rw [Responder.serverIdentity]
    split
    · exact (each_call ⟨fun _ => rfl, by rintro ⟨⟩⟩).bind fun _ => each_bailIf.bind fun _ => trivial
    · trivial
  have hsends : (Responder.serverIdentity policy).Sends fun _ => False := by
    rw [Responder.serverIdentity]
    split
    · exact fun _ => sends_bailIf.bind fun _ => trivial
    · trivial
  refine wp_bind (wp_mono ?_
    (wp_each_sends (I := Cleared call keyring chan requester) heach hsends ?_ ?_ ?_ hg))
  · rintro (e | a) h hh
    · exact herr e h
    · exact hf a h hh
  · exact fun g h hg hrely => hg.rely hrely
  · intro β l x g hx hg
    refine ⟨fun hkept => hkept.act _ _ _, ?_⟩
    have hsame : (x.exec (desk.view g)).2 = g.dir := hx.1 g.dir
    rw [hsame]
    exact hg.act hx.2 _
  · exact fun m g hm _ => hm.elim

/-- The keyring has no key of the revocation's. -/
def Lacks (call : RevokeCall) (keyring : JsonFile (List ChannelKey)) : Prop :=
  ∀ keys, keysIn keyring = .ok keys → ∀ key ∈ keys, key.id ≠ hashHex call.raw

/-- **What is offered** where the session does not straddle the
revocation: nothing of the new key. -/
theorem not_leaks_of_makeKeyOffers {identity : KeypairFile} {nonces : ℕ → Bytes}
    {offers : List KeyOffer} (hlacks : Lacks call keyring)
    (hg : Cleared call keyring chan requester g) (hstraddles : ¬ g.Straddles)
    (hfailed : g.revocation ≠ .failed)
    (hmade : makeKeyOffers chan.fullName identity requester nonces g.dir = .ok offers)
    (msgType key : String) : ¬ Leaks call (.keySync ⟨msgType, key, offers⟩) := by
  rintro ⟨offer, hoffer, hchan, hrecipient, hid⟩
  obtain ⟨hchannel, hto, keys, hload, channelKey, hmem, hkeyId⟩ := mem_makeKeyOffers hmade hoffer
  have hsame : chan.fullName = call.chan.fullName := hchannel.symm.trans hchan
  have hstale := hg.stale hsame (hto.symm.trans hrecipient)
  -- the policy is from before the event, so the key is not made yet
  have hkeyring := hg.unrotated (fun hmade => hstraddles ⟨hmade, hstale⟩) hfailed
  rw [hsame, loadKeys_of_keyringIs hkeyring] at hload
  exact hlacks keys hload channelKey hmem (hkeyId.symm.trans hid)

/-- What holds where the session waits: up to its packet the keyring is
watched, and behind it no keys are sent. -/
def Withholds (call : RevokeCall) (keyring : JsonFile (List ChannelKey)) :
    Except Error Responder.Await → Desk → Prop
  | .ok (.status _), g => Unrotated call keyring g
  | _, _ => True

/-- **The keys are sent under the policy that was read before them.** -/
theorem wp_sendKeys {status : StatusMessage} {nonces : ℕ → Bytes} (hlacks : Lacks call keyring)
    (hg : Unrotated call keyring g) :
    wp desk (withholding call) (Responder.sendKeys chan status nonces) (Withholds call keyring)
      g := by
  refine wp_desk_ask (fun policy h hrely htimely hpolicy => ?_) fun _ _ => trivial
  rw [Proc.bailIf_bind]
  split
  · exact fun _ _ => trivial
  rename_i hallows
  have hcleared : Cleared call keyring chan status.requester
      (desk.act .readChannelPolicy true h.dir h) := by
    refine ⟨hrely.unrotated hg, fun hchan hkey => ?_⟩
    rintro ⟨r, hr, happended⟩
    rw [desk, checkedAt_concat] at hr
    cases hr
    -- behind the event the policy does not let the identity through
    refine hallows ?_
    rw [hkey]
    refine htimely.1 happended policy ?_
    have hsame : readChannelPolicy chan = readChannelPolicy call.chan := by
      rw [eq_of_fullName hchan]
    rw [← hsame]
    exact hpolicy
  refine wp_serverIdentity_bind policy (fun identity g hg => ?_) (fun _ _ => trivial) hcleared
  cases identity with
  | none =>
    refine fun i _ _ => ⟨fun hkept => hkept.emit ?_, fun _ _ => trivial⟩
    rintro ⟨offer, hoffer, -⟩
    cases hoffer
  | some identity =>
    refine wp_desk_ask (fun offers h hrely htimely hmade => ?_) fun _ _ => trivial
    refine fun i hi _ => ⟨fun hkept => ?_, fun _ _ => trivial⟩
    by_cases hfailed : h.revocation = .failed
    · -- a revocation that has failed excludes nobody
      exact fun hne => absurd (hi.failed hfailed) hne
    · exact hkept.emit (not_leaks_of_makeKeyOffers hlacks (hg.rely hrely) (htimely.2 rfl) hfailed
        hmade _ _)

/-! ## Frames without keys -/

namespace Responder

/-- No frame of the policy has an offer in it. -/
theorem keyless_takePolicy (localPolicy remote : List PolicyEvent) :
    (takePolicy chan localPolicy remote).Sends Keyless := by
  rw [takePolicy]
  split
  · exact fun _ => ⟨by rintro _ ⟨⟩, trivial⟩
  split
  · exact fun _ => trivial
  · trivial

/-- Nor has the history that is sent back. -/
theorem keyless_sendPolicy : (sendPolicy chan requester).Sends Keyless :=
  fun _ => sends_bailIf.bind fun _ _ => ⟨nofun, trivial⟩

/-- No frame of the moderation has an offer in it. -/
theorem keyless_takeModeration (remote : List ModerationEvent) :
    (takeModeration chan remote).Sends Keyless := by
  refine fun _ events => ?_
  change Proc.Sends Keyless (ite _ _ _)
  split
  · exact fun _ => ⟨nofun, trivial⟩
  split
  · exact fun _ => trivial
  · trivial

/-- Reading buckets sends nothing. -/
theorem keyless_readChunks (indices : List ℕ) : (readChunks chan indices).Sends Keyless := by
  induction indices with
  | nil => trivial
  | cons index indices ih => exact fun _ => ih.bind fun _ => trivial

/-- An envelope has no offer in it. -/
theorem keyless_sendMessages (ids : List String) : (sendMessages chan ids).Sends Keyless := by
  induction ids with
  | nil => trivial
  | cons id ids ih => exact fun _ => ⟨nofun, ih⟩

omit [Primitives] in
/-- The completion has no offer in it. -/
theorem keyless_finishUpload (sent : ℕ) (wanted : Finset String) (received : ℕ) :
    (finishUpload chan sent wanted received).Sends Keyless := by
  rw [finishUpload]
  split
  · exact ⟨by rintro _ ⟨⟩, trivial⟩
  · trivial

/-- Accepting the keys in return sends nothing. -/
theorem keyless_acceptKeys (policy : ChannelPolicy) (identity : Option KeypairFile)
    (m : KeySync) : (acceptKeys chan requester policy identity m).Sends Keyless := by
  refine sends_bailIf.bind fun _ => sends_bailIf.bind fun _ => (sends_except _).bind fun _ => ?_
  cases identity with
  | none => exact sends_bailIf
  | some identity => exact fun _ => trivial

/-- **Keys are sent in answer to a status packet only.** -/
theorem keyless_resume {a : Await} (i : Incoming × Ambient) (ha : ∀ m, a ≠ .status m) :
    (resume a i).Sends Keyless := by
  obtain ⟨i, ambient⟩ := i
  cases a with
  | status m => exact absurd rfl (ha m)
  | keySync chan status policy identity =>
    refine (sends_except _).bind fun sync => ?_
    cases sync with
    | none => trivial
    | some m =>
      exact (keyless_acceptKeys _ _ _).bind fun _ _ => (sends_except _).bind fun _ =>
        (keyless_readChunks _).bind fun _ => ⟨nofun, trivial⟩
  | chunkIds chan serverChunks differing =>
    refine (sends_except _).bind fun batch => ?_
    cases batch with
    | none => trivial
    | some m =>
      exact (sends_except _).bind fun _ => sends_bailIf.bind fun _ =>
        ⟨nofun, (keyless_sendMessages _).bind fun _ => keyless_finishUpload _ _ _⟩
  | upload chan sent wanted received =>
    refine (sends_except _).bind fun env => ?_
    cases env with
    | none => trivial
    | some m =>
      exact sends_bailIf.bind fun _ => sends_bailIf.bind fun _ => (sends_except _).bind fun _ _ =>
        keyless_finishUpload _ _ _
  | done => trivial

end Responder

/-! ## Whole sessions -/

/-- From the status packet to the keys. -/
theorem wp_reconcile {status : StatusMessage} {nonces : ℕ → Bytes} (hlacks : Lacks call keyring)
    (hg : Unrotated call keyring g) :
    wp desk (withholding call) (Responder.reconcile chan status nonces) (Withholds call keyring)
      g := by
  have hquery {α : Type} {l : Call} (q : ReadM α) :
      (ask l q).Each (KeepsKeyring call.chan keyring) := each_call (keepsKeyring_query q)
  refine wp_keyless_bind ((hquery _).bind fun _ => (hquery _).bind fun _ => each_bailIf.bind
    fun _ => trivial) (fun _ _ => sends_bailIf.bind fun _ => trivial) (fun L g hg => ?_)
    (fun _ _ => trivial) hg
  refine wp_keyless_bind (each_takePolicy _ _) (Responder.keyless_takePolicy _ _)
    (fun _ g hg => ?_) (fun _ _ => trivial) hg
  refine wp_keyless_bind ((hquery _).bind fun _ => each_bailIf.bind fun _ => (hquery _).bind
    fun _ => trivial) Responder.keyless_sendPolicy (fun _ g hg => ?_) (fun _ _ => trivial) hg
  refine wp_keyless_bind (each_takeModeration _) (Responder.keyless_takeModeration _)
    (fun _ g hg => ?_) (fun _ _ => trivial) hg
  refine wp_keyless_bind ((hquery _).bind fun _ => trivial) (fun _ => ⟨nofun, trivial⟩)
    (fun _ g hg => ?_) (fun _ _ => trivial) hg
  exact wp_sendKeys hlacks hg

/-- **From one point of waiting to the next.** -/
theorem withholds_resume (hlacks : Lacks call keyring) (a : Responder.Await)
    (i : Incoming × Ambient) (g : Desk) (hg : Withholds call keyring (.ok a) g) :
    wp desk (withholding call) (Responder.resume a i) (Withholds call keyring)
      (desk.receive i g) := by
  by_cases ha : ∃ c, a = .status c
  · obtain ⟨c, rfl⟩ := ha
    rw [Responder.resume]
    cases Responder.readStatus i.1 with
    | error e => exact fun _ _ => trivial
    | ok status =>
      rw [Proc.lift_ok_bind]
      cases Responder.checkStatus c status i.2.now i.2.now' with
      | error e => exact fun _ _ => trivial
      | ok chan =>
        rw [Proc.lift_ok_bind]
        exact wp_reconcile hlacks (show Unrotated call keyring (desk.receive i g) from hg)
  · have hne : ∀ c, a ≠ .status c := fun c hc => ha ⟨c, hc⟩
    refine wp_mono ?_ (wp_returns (wp_each_sends (I := fun _ => True) (each_any _)
      (Responder.keyless_resume i hne) (fun _ _ _ _ => trivial) ?_ ?_ trivial)
      (Responder.returns_resume i hne))
    · rintro (e | b) g ⟨-, hb⟩
      · trivial
      · cases b with
        | status c => exact absurd rfl (hb _ rfl c)
        | _ => trivial
    · exact fun β l x g _ _ => ⟨fun hkept => hkept.act _ _ _, trivial⟩
    · exact fun m g hm _ => ⟨fun hkept => hkept.emit hm.not_leaks, trivial⟩

/-- The challenge is sent before anything is read. -/
theorem withholds_start (identity : KeypairFile) (random : Bytes) (now : Int64)
    (hg : Unrotated call keyring g) :
    wp desk (withholding call) (Responder.start identity random now) (Withholds call keyring)
      g := by
  rw [Responder.start]
  cases makeAuthChallenge identity "/sync" random now with
  | error e => exact fun _ _ => trivial
  | ok m =>
    rw [Proc.lift_ok_bind]
    intro h hrely _
    refine ⟨fun hkept => hkept.emit id, fun i hi => ?_⟩
    exact hi.unrotated (hrely.unrotated hg)

/-- One step of a session beside a revocation. -/
abbrev RevokingStep (call : RevokeCall) (admits : Event Call Frame → Desk → Prop) :=
  SessionStep desk (Revokes call) admits Responder.resume

/-- **A key is withheld from the identity it was made against**, on every
node, whatever the session is sent, and in every order of the steps of the
two in which no keys are offered across the revocation. -/
theorem revoked_key_withheld {identity : KeypairFile} {random : Bytes} {now : Int64}
    {evs : List (Option (Event Call Frame))} {t : Desk × Session Responder.Await}
    (hlacks : ∀ keys, loadKeys call.chan.fullName d = .ok keys →
      ∀ key ∈ keys, key.id ≠ hashHex call.raw)
    (hrun : Run (RevokingStep call (Timely call))
      (⟨d, .start, []⟩, Responder.start identity random now) evs t)
    (hend : t.1.revocation ≠ .failed) : Withheld call t.1 := by
  obtain ⟨keyring, hkeyring⟩ := exists_keyringIs call.chan d
  rw [loadKeys_of_keyringIs hkeyring] at hlacks
  have hstart : wp desk (withholding call) (Responder.start identity random now)
      (Withholds call keyring) ⟨d, .start, []⟩ :=
    withholds_start identity random now fun _ _ => hkeyring
  have hkept := wp_sessionRun (C := withholding call) (I := Kept call)
    (withholds_resume hlacks) (fun g h hg hrely => Revokes.kept hrely hg) ?_
    (fun ev g h hg hguarantee => hguarantee hg) hrun hstart ?_
  · exact hkept.2 hend
  · intro i g hg hne
    refine withheld_concat (hg hne) ?_ g.dir
    rintro r m ⟨⟩
  · intro _ r m hmem
    exact absurd hmem List.not_mem_nil

/-- A part of a session that runs with no step of the revocation in
between. -/
theorem run_desk {admits : Event Call Frame → Desk → Prop} {p : Session α}
    {f : α → Session Responder.Await} {es : List (Entry Call Frame (Incoming × Ambient))} {a : α}
    {s₀ : Desk × Session Responder.Await} {evs : List (Option (Event Call Frame))}
    {record : List (Revocation × Entry Call Frame (Incoming × Ambient))} {r : Revocation}
    (hadmits : ∀ ev dir record, admits ev ⟨dir, r, record⟩) (h : Alone p d es (.ok a) d')
    (hrun : Run (RevokingStep call admits) s₀ evs (⟨d, r, record⟩, p >>= f)) :
    ∃ evs' record', Run (RevokingStep call admits) s₀ evs' (⟨d', r, record'⟩, f a) := by
  have hadmits' : ∀ ev (g : Desk), g.revocation = r → admits ev g := by
    rintro ev ⟨dir, _, record⟩ rfl
    exact hadmits ev dir record
  obtain ⟨evs', ⟨_, _, record'⟩, hrun', rfl, rfl⟩ :=
    h.run_host (H := desk) (K := fun g => g.revocation = r) (fun _ _ _ _ hg => ⟨hg, rfl⟩)
      (fun _ _ hg => ⟨hg, rfl⟩) hadmits' rfl rfl hrun
  exact ⟨evs', record', hrun'⟩

/-- A part of a session that runs alone is a run at the desk. -/
theorem run_desk_solo {admits : Event Call Frame → Desk → Prop} {p : Session α}
    {f : α → Session Responder.Await} {ms : List Frame} {a : α}
    {s₀ : Desk × Session Responder.Await} {evs : List (Option (Event Call Frame))}
    {record : List (Revocation × Entry Call Frame (Incoming × Ambient))} {r : Revocation}
    (hadmits : ∀ ev dir record, admits ev ⟨dir, r, record⟩) (h : p.solo d = (ms, .ok a, d'))
    (hrun : Run (RevokingStep call admits) s₀ evs (⟨d, r, record⟩, p >>= f)) :
    ∃ evs' record', Run (RevokingStep call admits) s₀ evs' (⟨d', r, record'⟩, f a) := by
  obtain ⟨es, -, halone⟩ :
      ∃ es : List (Entry Call Frame (Incoming × Ambient)), _ ∧ Alone p d es _ _ := exists_alone p d
  rw [h] at halone
  exact run_desk hadmits halone hrun

end Steps

/-! ## The key goes to the one it was made against -/

section Race

open Simulated

attribute [local instance] simulated

/-- A private channel of the fourth identity, which the third reads. -/
def sharedPolicy : ChannelPolicy :=
  { ownPolicy with
    owner := some (identity 4).publicKey, readers := [(identity 3).publicKey] }

/-- The history of that policy. -/
def sharedSteps : List (UInt8 × PolicyAction) := [(4, .adopt sharedPolicy)]

/-- The revocation of the reader. -/
def revokeReader : RevokeCall where
  chan := general
  signer := identity 4
  role := .reader
  publicKey := (identity 3).publicKey
  raw := drawn 2
  now := 0
  now' := 0

/-- The channel is private, and read by one beside the owner. -/
theorem derivePolicy_sharedSteps :
    derivePolicy general (policyChain general none sharedSteps) = .ok sharedPolicy :=
  derivePolicy_policyChain general sharedSteps (by decide +kernel)

/-- The directory of the channel, which has no keys. -/
noncomputable def sharedDir : Dir := historyDir (policyChain general none sharedSteps) []

/-- The owner's node. -/
noncomputable def sharedNode : Datadir :=
  ({ identity := .value (identity 4) } : Datadir).put general.fullName sharedDir

/-- The node has the shared channel. -/
theorem getElem?_sharedNode : sharedNode.channels[general.fullName]? = some sharedDir :=
  getElem?_put_self _ _ _

/-- The node has no key of the channel yet. -/
theorem loadKeys_sharedNode : loadKeys general.fullName sharedNode = .ok [] := by
  rw [loadKeys, getElem?_sharedNode]
  rfl

/-- Its histories are those, and no moderation. -/
theorem holds_sharedNode :
    Holds general sharedDir (policyChain general none sharedSteps) [] sharedNode :=
  ⟨getElem?_sharedNode, ⟨_, rfl⟩,
    (holds_historyNode derivePolicy_sharedSteps deriveModerationUnder_nil).readable⟩

/-- That policy is in force. -/
theorem readChannelPolicy_sharedNode :
    readChannelPolicy general sharedNode = .ok sharedPolicy := by
  rw [readChannelPolicy_of_history holds_sharedNode.policyHistory (List.cons_ne_nil _ _)]
  exact derivePolicy_sharedSteps

/-- The policy without the reader. -/
def ownerOnly : ChannelPolicy := { sharedPolicy with readers := [] }

/-- The actions of the owner, the revocation last. -/
def revokedSteps : List (UInt8 × PolicyAction) :=
  [(4, .adopt sharedPolicy), (4, .revoke .reader (identity 3).publicKey)]

/-- Once the reader is revoked the owner reads alone. -/
theorem derivePolicy_revokedSteps :
    derivePolicy general (policyChain general none revokedSteps) = .ok ownerOnly :=
  derivePolicy_policyChain general revokedSteps (by decide +kernel)

/-- The event of the revocation. -/
def revokedEvent : PolicyEvent :=
  policyEvent general 4 0 ((policyChain general none sharedSteps).getLast?.map PolicyEvent.id)
    (.revoke .reader (identity 3).publicKey)

/-- The revocation is one event more. -/
theorem policyChain_revokedSteps :
    policyChain general none revokedSteps =
      policyChain general none sharedSteps ++ [revokedEvent] :=
  rfl

/-- The directory with the new key, and the node. -/
noncomputable def rotatedSharedDir : Dir :=
  { sharedDir with channelKeys := .value [.ofRaw (drawn 2)] }

/-- The node once the key is made. -/
noncomputable def rotatedSharedNode : Datadir := sharedNode.put general.fullName rotatedSharedDir

/-- The node once the revocation is in its policy. -/
noncomputable def revokedNode : Datadir :=
  rotatedSharedNode.put general.fullName
    (appendPolicyRecords [revokedEvent] ownerOnly rotatedSharedDir)

variable {d : Datadir} {record : List (Revocation × Entry Call Frame (Incoming × Ambient))}

/-! ### The three steps of the revocation -/

/-- The check: the revocation has read the policy. -/
theorem revoke_start : Desk.revoke revokeReader ⟨sharedNode, .start, record⟩ =
    ⟨sharedNode, .checked sharedPolicy, record⟩ := by
  have hcheck : checkRevoke general (identity 4) .reader (identity 3).publicKey sharedNode =
      .ok sharedPolicy :=
    checkRevoke_ok.2 ⟨readChannelPolicy_sharedNode, validatePublicKey_identity 3,
      authorizePolicyChange_ok.2 ⟨rfl, .inl rfl⟩⟩
  have hexec : (revokeReader.next .start).exec sharedNode =
      (.ok (.checked sharedPolicy), sharedNode) := by
    rw [RevokeCall.next, Op.exec_query_bind]
    simp only [revokeReader, hcheck]
    rfl
  rw [Desk.revoke, hexec]

/-- The rotation: a key is there, and the policy as it was. -/
theorem revoke_checked : Desk.revoke revokeReader ⟨sharedNode, .checked sharedPolicy, record⟩ =
    ⟨rotatedSharedNode, .rotated, record⟩ := by
  have hgenerate : (generateChannelKey general.fullName (drawn 2)).exec sharedNode =
      (.ok (.ofRaw (drawn 2)), rotatedSharedNode) :=
    exec_generateChannelKey getElem?_sharedNode loadKeys_sharedNode
  have hprivate : sharedPolicy.visibility = .private_ := rfl
  have hexec : (revokeReader.next (.checked sharedPolicy)).exec sharedNode =
      (.ok .rotated, rotatedSharedNode) := by
    rw [RevokeCall.next, if_pos hprivate]
    exact Op.exec_bind_of_ok hgenerate
  rw [Desk.revoke, hexec]

/-- The event: now the reader is out. -/
theorem revoke_rotated : Desk.revoke revokeReader ⟨rotatedSharedNode, .rotated, record⟩ =
    ⟨revokedNode, .appended true ownerOnly, record⟩ := by
  have hlog : readPolicyLog general rotatedSharedDir = .ok (policyChain general none sharedSteps) :=
    readPolicyLog_records rfl derivePolicy_sharedSteps
  have hadded : newPolicyEvents general (identity 4) 0 0 (.revoke .reader (identity 3).publicKey)
      (policyChain general none sharedSteps) sharedPolicy = .ok [revokedEvent] := by
    rw [newPolicyEvents, if_neg (by rintro ⟨hempty, -⟩; cases hempty), signPolicyEvent_identity]
    rfl
  have hderive : derivePolicy general (policyChain general none sharedSteps ++ [revokedEvent]) =
      .ok ownerOnly := by
    rw [← policyChain_revokedSteps]
    exact derivePolicy_revokedSteps
  have happend : revokeReader.append.exec rotatedSharedNode = (.ok ownerOnly, revokedNode) :=
    exec_appendPolicyAction_ok.2 ⟨rotatedSharedDir, [], _, sharedPolicy, [revokedEvent],
      openLog_ok.2 ⟨getElem?_put_self _ _ _, rfl⟩, hlog, derivePolicy_sharedSteps, hadded, hderive,
      rfl⟩
  have hexec : (revokeReader.next .rotated).exec rotatedSharedNode =
      (.ok (.appended true ownerOnly), revokedNode) := by
    rw [RevokeCall.next]
    exact Op.exec_bind_of_ok happend
  rw [Desk.revoke, hexec]

/-! ### The session of the reader -/

/-- The reader is a member until then. -/
theorem member_sharedNode : Member general (identity 3).publicKey sharedNode :=
  ⟨sharedPolicy, readChannelPolicy_sharedNode, by simp [policyAllowsRead, sharedPolicy]⟩

/-- The reader brings the same policy, and there is nothing to take. -/
theorem solo_takePolicy_sharedNode :
    (Responder.takePolicy general (policyChain general none sharedSteps) []).solo sharedNode =
      ([], .ok (), sharedNode) := by
  rw [Responder.takePolicy]
  simp [idPrefix]

/-- The reader brings no moderation, and there is none to take. -/
theorem solo_takeModeration_sharedNode :
    (Responder.takeModeration general []).solo sharedNode = ([], .ok (), sharedNode) := by
  have hnone : deriveModeration general [] sharedNode = .ok {} :=
    (holds_sharedNode.deriveModeration []).trans rfl
  rw [Responder.takeModeration, solo_ask_bind hnone,
    solo_ask_bind holds_sharedNode.moderationHistory]
  simp [idPrefix]

/-- The node serves the private channel as its owner. -/
theorem solo_serverIdentity_sharedNode :
    (Responder.serverIdentity sharedPolicy).solo sharedNode =
      ([], .ok (some (identity 4)), sharedNode) := by
  have hidentity : context "load server identity for private channel-key exchange"
      (loadIdentity sharedNode) = .ok (identity 4) := rfl
  have hprivate : sharedPolicy.visibility = .private_ := rfl
  rw [Responder.serverIdentity, if_pos hprivate, solo_ask_bind hidentity,
    solo_bailIf_bind (by simp [policyAllowsRead, sharedPolicy]), solo_pure]

/-- The responder's surroundings. -/
def racingAmbient : Ambient := ⟨0, 0, fun _ => nonce, sortedOrder, sortedOrder⟩

/-- What the claim of the revoked identity allows. -/
def ShutBehind (call : RevokeCall) (_ : Event Call Frame) (g : Desk) : Prop :=
  g.revocation.Appended → ShutAt call.chan call.publicKey g.dir

/-- What the session sends behind its offers, and where it waits then. -/
def sendOffers (policy : ChannelPolicy) (offers : List KeyOffer) : Session Responder.Await := do
  Proc.emit (.keySync ⟨"key_sync", (identity 4).publicKey, offers⟩)
  pure (.keySync general (statusOf [] []) policy (some (identity 4)))

/-- The offers that are made are sent next. -/
theorem advance_makeKeyOffers {r : Revocation} {offers : List KeyOffer}
    (hmade : makeKeyOffers general.fullName (identity 4) (identity 3).publicKey (fun _ => nonce) d =
      .ok offers) :
    advance desk (ask .makeKeyOffers (makeKeyOffers general.fullName (identity 4)
      (identity 3).publicKey fun _ => nonce) >>= sendOffers sharedPolicy) ⟨d, r, record⟩ =
      some (.act .makeKeyOffers, sendOffers sharedPolicy offers,
        ⟨d, r, record ++ [(r, .act .makeKeyOffers true)]⟩) := by
  rw [ask, call_bind, advance, Op.exec_query, show desk.view _ = d from rfl, hmade]
  rfl

/-- The session comes to its keys while the revocation waits. -/
theorem exists_run_to_keys {admits : Event Call Frame → Desk → Prop}
    (hbefore : ∀ ev dir record, admits ev ⟨dir, .start, record⟩) : ∃ evs record,
    Run (RevokingStep revokeReader admits)
      (⟨sharedNode, .start, []⟩, Responder.start (identity 4) (List.replicate 32 0) (-60)) evs
      (⟨sharedNode, .start, record⟩,
        ask .makeKeyOffers (makeKeyOffers general.fullName (identity 4) (identity 3).publicKey
          fun _ => nonce) >>= sendOffers sharedPolicy) := by
  have hstart : Responder.start (identity 4) (List.replicate 32 0) (-60) =
      Proc.send (.challenge welcome) (Proc.ret (.status welcome)) := by
    have hmade : makeAuthChallenge (identity 4) "/sync" (List.replicate 32 0) (-60) = .ok welcome :=
      makeAuthChallenge_ok.2 ⟨_, signBytes_identity 4 _, rfl⟩
    rw [Responder.start, hmade]
    rfl
  have hresume : Responder.resume (.status welcome)
      (.text (Frame.status (statusOf [] [])).decoded, racingAmbient) =
        Responder.reconcile general (statusOf [] []) racingAmbient.nonces := by
    have hread : Responder.readStatus (.text (Frame.status (statusOf [] [])).decoded) =
        .ok (statusOf [] []) := rfl
    have hcheck : Responder.checkStatus welcome (statusOf [] []) racingAmbient.now
        racingAmbient.now' = .ok general :=
      checkStatus_statusOf (Nat.zero_le _) (Nat.zero_le _) derivePolicy_nil
    rw [Responder.resume, hread, Proc.lift_ok_bind, hcheck, Proc.lift_ok_bind]
  have h₀ : Run (RevokingStep revokeReader admits)
      (⟨sharedNode, .start, []⟩, Responder.start (identity 4) (List.replicate 32 0) (-60)) []
      (⟨sharedNode, .start, []⟩, Proc.send (.challenge welcome) (Proc.ret (.status welcome))) := by
    rw [← hstart]
    exact .nil _
  have h₁ := (h₀.snoc (.advance rfl (hbefore _ _ _))).snoc
    (.receive (.text (Frame.status (statusOf [] [])).decoded, racingAmbient))
  rw [hresume, Responder.reconcile] at h₁
  obtain ⟨_, _, h₂⟩ := run_desk_solo hbefore
    (Responder.solo_admitRequester holds_sharedNode member_sharedNode) h₁
  obtain ⟨_, _, h₃⟩ := run_desk_solo hbefore solo_takePolicy_sharedNode h₂
  obtain ⟨_, _, h₄⟩ := run_desk_solo hbefore
    (Responder.solo_sendPolicy holds_sharedNode member_sharedNode) h₃
  obtain ⟨_, _, h₅⟩ := run_desk_solo hbefore solo_takeModeration_sharedNode h₄
  obtain ⟨_, _, h₆⟩ := run_desk_solo hbefore (Responder.solo_sendModeration holds_sharedNode) h₅
  rw [Responder.sendKeys] at h₆
  have hpolicy : (ask .readChannelPolicy (readChannelPolicy general) : Session _).solo sharedNode =
      ([], .ok sharedPolicy, sharedNode) := by
    rw [ask, solo_call, Op.exec_query, readChannelPolicy_sharedNode]
  obtain ⟨_, _, h₇⟩ := run_desk_solo hbefore hpolicy h₆
  have hallows : ¬ policyAllowsRead sharedPolicy (statusOf [] []).requester = false := by
    simp [policyAllowsRead, sharedPolicy, statusOf]
  rw [Proc.bailIf_bind, if_neg hallows] at h₇
  obtain ⟨_, _, h₈⟩ := run_desk_solo hbefore solo_serverIdentity_sharedNode h₇
  exact ⟨_, _, h₈⟩

/-- Where the session has offered its keys before the revocation begins, it
had none. -/
theorem revoked_key_withheld_shared : ∃ evs t,
    Run (RevokingStep revokeReader (Timely revokeReader))
      (⟨sharedNode, .start, []⟩, Responder.start (identity 4) (List.replicate 32 0) (-60)) evs t ∧
    t.1.revocation = .appended true ownerOnly ∧ Withheld revokeReader t.1 := by
  have hbefore : ∀ ev dir record, Timely revokeReader ev ⟨dir, .start, record⟩ := by
    intro ev dir record
    refine ⟨?_, fun _ hstraddles => hstraddles.1⟩
    rintro ⟨_, _, ⟨⟩⟩
  obtain ⟨evs, record, h⟩ := exists_run_to_keys hbefore
  have hmade : makeKeyOffers general.fullName (identity 4) (identity 3).publicKey
      (fun _ => nonce) sharedNode = .ok [] := by
    rw [makeKeyOffers, Query.bind_ok]
    exact ⟨[], loadKeys_sharedNode, rfl⟩
  have hsent := (h.snoc (.advance (advance_makeKeyOffers hmade) (hbefore _ _ _))).snoc
    (.advance rfl (hbefore _ _ _))
  have hmoved : ∀ record, Revokes revokeReader ⟨sharedNode, .start, record⟩
      ⟨revokedNode, .appended true ownerOnly, record⟩ := fun _ =>
    .tail (.tail (.tail .refl revoke_start.symm) revoke_checked.symm) revoke_rotated.symm
  have hended := hsent.snoc (.others (hmoved _))
  refine ⟨_, _, hended, rfl, revoked_key_withheld ?_ hended (by rintro ⟨⟩)⟩
  intro keys hkeys key hkey
  cases loadKeys_sharedNode.symm.trans hkeys
  exact absurd hkey List.not_mem_nil

/-- **The key is sent to the reader it was made against.** The session
reads the policy, the revocation makes its key, the session offers its
keys, and the revocation appends its event. -/
theorem revoked_key_leaks : ∃ evs t,
    Run (RevokingStep revokeReader (ShutBehind revokeReader))
      (⟨sharedNode, .start, []⟩, Responder.start (identity 4) (List.replicate 32 0) (-60)) evs t ∧
    (∀ keys, loadKeys general.fullName sharedNode = .ok keys → keys = []) ∧
    t.1.revocation = .appended true ownerOnly ∧
    policyAllowsRead ownerOnly revokeReader.publicKey = false ∧
    ¬ Withheld revokeReader t.1 := by
  have hload : loadKeys general.fullName rotatedSharedNode = .ok [.ofRaw (drawn 2)] := by
    rw [loadKeys, rotatedSharedNode, getElem?_put_self]
    rfl
  obtain ⟨offers, hmade, -⟩ := exists_makeKeyOffers 4 3 hload (by simp)
  obtain ⟨offer, rfl⟩ : ∃ offer, offers = [offer] := by
    obtain ⟨keys, hkeys, hids⟩ := makeKeyOffers_ok hmade
    cases hload.symm.trans hkeys
    exact List.length_eq_one_iff.1 (by simpa using congrArg List.length hids)
  obtain ⟨hchannel, hrecipient, keys, hkeys, key, hkey, hid⟩ :=
    mem_makeKeyOffers hmade (List.mem_singleton_self offer)
  cases hload.symm.trans hkeys
  obtain rfl := List.mem_singleton.1 hkey
  have hstart : ∀ ev dir record, ShutBehind revokeReader ev ⟨dir, .start, record⟩ := by
    rintro ev dir record ⟨_, _, ⟨⟩⟩
  obtain ⟨evs, record, h⟩ := exists_run_to_keys hstart
  -- the revocation passes its check and makes its key
  have hmoved : Revokes revokeReader ⟨sharedNode, .start, record⟩
      ⟨rotatedSharedNode, .rotated, record⟩ :=
    .tail (.tail .refl revoke_start.symm) revoke_checked.symm
  have hrotated := h.snoc (.others hmoved)
  -- the session offers what the keyring has by now
  have hbefore : ∀ ev dir record, ShutBehind revokeReader ev ⟨dir, .rotated, record⟩ := by
    rintro ev dir record ⟨_, _, ⟨⟩⟩
  have hsent := (hrotated.snoc (.advance (advance_makeKeyOffers hmade) (hbefore _ _ _))).snoc
    (.advance rfl (hbefore _ _ _))
  -- and the event is appended behind them
  have hended := hsent.snoc (.others (.tail .refl revoke_rotated.symm))
  refine ⟨_, _, hended, fun keys hkeys => ?_, rfl, ?_, fun hkept => ?_⟩
  · cases loadKeys_sharedNode.symm.trans hkeys
    rfl
  · decide +kernel
  · refine hkept .rotated _ (List.mem_append_right _ (List.mem_singleton_self _)) ?_
    exact ⟨offer, List.mem_singleton_self offer, hchannel, hrecipient, hid⟩

end Race

end Embernet
