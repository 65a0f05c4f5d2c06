import Embernet.Model.Discovery
import Embernet.Sync.Order
import Embernet.Signing.Payloads
import Mathlib.Data.String.Basic
/-!
# Authentication — who a session was opened for

Any number of sessions run, and between them frames are lost, repeated,
passed on and made up. A signature that verifies is one that the holder of
the key has made, and no two payloads have one signature. A responder that
takes a status packet then has its requester's signature for its own
challenge; and a client signs for the responder it has pinned.
-/

set_option autoImplicit false

namespace Embernet

open Primitives Proc

section Authentication

variable [Primitives] [Urls]

/-! ## Signatures that were made -/

/-- A signature by the holder of a key: for a challenge, for a sync or a
discovery that answers one, for something else that the program signs, or
by a holder who does not run the program. -/
inductive Made
  | challenge (target : ChallengeTarget) (identity : KeypairFile) (m : AuthChallenge)
  | syncAuth (peers : JsonFile PeerConfig) (url : String) (posed : AuthChallenge)
      (m : StatusMessage)
  | discoveryAuth (peers : JsonFile PeerConfig) (url : String) (posed : AuthChallenge)
      (m : DiscoveryRequest)
  | other (identity : KeypairFile) (p : Signed) (text : String)
  | foreign (key payload sig : Bytes)

/-- One of the three texts of authentication. -/
def Signed.Authenticates : Signed → Prop
  | .syncAuth .. | .discoveryAuth .. | .responderChallenge .. => True
  | _ => False

namespace Made

omit [Primitives] [Urls] in
/-- The signature made is `sig`, by the holder of `key`, for `payload`. -/
def Signs (key payload sig : Bytes) : Made → Prop
  | challenge target _ m => hexDecode m.responder = some key ∧
      payload = responderChallengePayload target.path m.nonce m.responder m.expires ∧
      hexDecode m.signature = some sig
  | syncAuth _ _ posed m => hexDecode m.requester = some key ∧
      payload = syncAuthPayload m.authTs m.channel posed.nonce posed.responder ∧
      hexDecode m.authSig = some sig
  | discoveryAuth _ _ posed m => hexDecode m.publicKey = some key ∧
      payload = discoveryAuthPayload m.timestamp posed.nonce posed.responder ∧
      hexDecode m.signature = some sig
  | other identity p text => hexDecode identity.publicKey = some key ∧ payload = p.bytes ∧
      hexDecode text = some sig
  | foreign key' payload' sig' => key = key' ∧ payload = payload' ∧ sig = sig'

/-- How the program makes it. The keys of those who do not run the program
are `corrupt`. -/
def Genuine (corrupt : Set Bytes) : Made → Prop
  | challenge target identity m => (∃ key : HexKey, key.text = identity.publicKey) ∧
      ∃ random now, random.length = 32 ∧
        makeAuthChallenge identity target.path random now = .ok m
  | syncAuth peers url posed m => ∃ chan chunks policyEvents moderationEvents identity authTs given,
      given.expected = expectedPeerKey peers url ∧
        Initiator.answerChallenge chan chunks policyEvents moderationEvents identity authTs posed
          given = .ok m
  | discoveryAuth peers url posed m => ∃ identity now now' timestamp,
      discoveryRequest peers url identity posed now now' timestamp = .ok m
  | other identity p text => ¬ p.Authenticates ∧ identity.signBytes p.bytes = .ok text
  | foreign key _ _ => key ∈ corrupt

end Made

omit [Urls] in
/-- A challenge that was checked has a nonce and a responder of 32 bytes
each. -/
theorem exists_hexKeys {m : AuthChallenge} {target : String} {expected : Option String}
    {now now' : Int64} {u : Unit} (h : verifyAuthChallenge m target expected now now' = .ok u) :
    ∃ nonce responder : HexKey, nonce.text = m.nonce ∧ responder.text = m.responder := by
  obtain ⟨-, -, ⟨nonce, hnonce, hlength⟩, -, hverify⟩ := verifyAuthChallenge_ok.1 h
  obtain ⟨pk, hpk, h⟩ := bind_eq_ok.1 hverify
  obtain ⟨_, hpklen, -⟩ := bind_eq_ok.1 h
  exact ⟨⟨m.nonce, nonce, hnonce, hlength⟩,
    ⟨m.responder, pk, (orBail_eq_ok.1 hpk), by simpa using hpklen⟩, rfl, rfl⟩

/-- A payload of a sync is signed for that sync: with what the program
signs otherwise it has no text in common. -/
theorem Made.Genuine.of_syncAuth {corrupt : Set Bytes} {m : Made} {key payload sig : Bytes}
    {ts : Int64} {chan : ChannelRef} {nonce responder : HexKey} (h : m.Genuine corrupt)
    (hsigns : m.Signs key payload sig)
    (hpayload : payload = (Signed.syncAuth ts chan nonce responder).bytes) :
    key ∈ corrupt ∨ ∃ peers url posed status, m = .syncAuth peers url posed status ∧
      status.authTs = ts ∧ status.channel = chan.fullName ∧ posed.nonce = nonce.text ∧
      posed.responder = responder.text := by
  cases m with
  | challenge target identity m =>
    obtain ⟨⟨responder', hresponder'⟩, random, now, hlength, hmake⟩ := h
    obtain ⟨-, hbytes, -⟩ := hsigns
    obtain ⟨signature, -, hm⟩ := bind_eq_ok.1 hmake
    cases hm
    have hsame : (Signed.responderChallenge target
        ⟨hexEncode random, random, hexDecode_hexEncode random, hlength⟩ responder' (now + 60)).bytes =
        (Signed.syncAuth ts chan nonce responder).bytes := by
      rw [← hpayload, hbytes, Signed.bytes, hresponder']
    cases Signed.eq_of_bytes hsame
  | syncAuth peers url posed m =>
    right
    obtain ⟨chan', _, _, _, identity, authTs, given, -, hanswer⟩ := h
    obtain ⟨expected, authSig, -, hverify, -, rfl⟩ := Initiator.answerChallenge_ok.1 hanswer
    obtain ⟨nonce', responder', hnonce', hresponder'⟩ := exists_hexKeys hverify
    obtain ⟨-, hbytes, -⟩ := hsigns
    have hsame : (Signed.syncAuth authTs chan' nonce' responder').bytes =
        (Signed.syncAuth ts chan nonce responder).bytes := by
      rw [← hpayload, hbytes, Signed.bytes, hnonce', hresponder']
    cases Signed.eq_of_bytes hsame
    exact ⟨peers, url, posed, _, rfl, rfl, rfl, hnonce'.symm, hresponder'.symm⟩
  | discoveryAuth peers url posed m =>
    obtain ⟨identity, now, now', timestamp, hrequest⟩ := h
    obtain ⟨expected, -, hverify, -⟩ := discoveryRequest_ok hrequest
    obtain ⟨nonce', responder', hnonce', hresponder'⟩ := exists_hexKeys hverify
    obtain ⟨-, hbytes, -⟩ := hsigns
    have hsame : (Signed.discoveryAuth m.timestamp nonce' responder').bytes =
        (Signed.syncAuth ts chan nonce responder).bytes := by
      rw [← hpayload, hbytes, Signed.bytes, hnonce', hresponder']
    cases Signed.eq_of_bytes hsame
  | other identity p text =>
    obtain ⟨hkind, -⟩ := h
    obtain ⟨-, hbytes, -⟩ := hsigns
    obtain rfl : p = .syncAuth ts chan nonce responder :=
      Signed.eq_of_bytes (hbytes.symm.trans hpayload)
    exact absurd trivial hkind
  | foreign key' payload' sig' =>
    obtain ⟨rfl, -, -⟩ := hsigns
    exact Or.inl h

/-! ## Sessions and the net -/

/-- The record of a responder's session. -/
abbrev Responder.Transcript := List (Entry Call Frame (Incoming × Ambient))

/-- A session that a responder serves, with the random bytes of its
challenge. -/
structure ResponderSession where
  identity : KeypairFile
  random : Bytes
  store : Datadir
  record : Responder.Transcript
  task : Session Responder.Await

/-- A session that a client has dialled. -/
structure ClientSession where
  url : String
  store : Datadir
  record : Initiator.Transcript
  task : Session Initiator.Await

/-- All sessions, and every signature that was made. -/
structure Net where
  responders : List ResponderSession := []
  clients : List ClientSession := []
  made : List Made := []

omit [Urls] in
/-- **Unforgeability**: a signature in a status packet that verifies was
made, by the holder of its key and for what it verifies for. -/
def Unforged (made : List Made) : Incoming → Prop
  | .text t => ∀ status ∈ t.status, ∀ key sig payload, hexDecode status.requester = some key →
      hexDecode status.authSig = some sig → verify key sig payload = true →
      ∃ m ∈ made, m.Signs key payload sig
  | _ => True

/-- What a client signs where it goes on. -/
def signedBy (peers : JsonFile PeerConfig) (url : String) :
    Initiator.Await → Incoming × Given → List Made
  | .challenge chan chunks policyEvents moderationEvents identity authTs, (i, given) =>
    match Initiator.readChallenge i with
    | .error _ => []
    | .ok posed =>
      match Initiator.answerChallenge chan chunks policyEvents moderationEvents identity authTs
          posed given with
      | .error _ => []
      | .ok status => [.syncAuth peers url posed status]
  | _, _ => []

/-- What a responder signs where it begins. -/
def challengeOf (identity : KeypairFile) (random : Bytes) (now : Int64) : List Made :=
  match makeAuthChallenge identity "/sync" random now with
  | .error _ => []
  | .ok m => [.challenge .sync identity m]

/-- A responder's session takes a step of its own, or is given a text that
nobody forged. -/
inductive Serves (made : List Made) : ResponderSession → ResponderSession → Prop
  | step {s : ResponderSession} {d : Datadir} {record : Responder.Transcript}
      {task : Session Responder.Await} {ev : Option (Event Call Frame)} :
      SessionStep transcript Unrecorded (fun _ _ => True) Responder.resume
        ((s.store, s.record), s.task) ev ((d, record), task) →
      (∀ i, record = s.record ++ [.receive i] → Unforged made i.1) →
      Serves made s { s with store := d, record, task }

/-- One step of the net. -/
inductive NetStep (corrupt : Set Bytes) : Net → Unit → Net → Prop
  /-- A responder opens a session, under a nonce that is new to it. -/
  | listen {net : Net} (identity : KeypairFile) (random : Bytes) (now : Int64) (d : Datadir) :
      (∃ key : HexKey, key.text = identity.publicKey) → random.length = 32 →
      (∀ s ∈ net.responders, s.identity.publicKey = identity.publicKey → s.random ≠ random) →
      NetStep corrupt net () { net with
        responders := ⟨identity, random, d, [], Responder.start identity random now⟩ ::
          net.responders
        made := challengeOf identity random now ++ net.made }
  /-- A client dials a peer. -/
  | dial {net : Net} (url channel : String) (authTs : Int64) (d : Datadir) :
      NetStep corrupt net () { net with
        clients := ⟨url, d, [], Initiator.start channel authTs⟩ :: net.clients }
  /-- A responder's session goes on. -/
  | serve {net : Net} {s t : ResponderSession} {before after : List ResponderSession} :
      net.responders = before ++ s :: after → Serves net.made s t →
      NetStep corrupt net () { net with responders := before ++ t :: after }
  /-- A client's session goes on by itself. -/
  | work {net : Net} {s : ClientSession} {before after : List ClientSession} {d : Datadir}
      {record : Initiator.Transcript} {task : Session Initiator.Await}
      {ev : Option (Event Call Frame)} :
      net.clients = before ++ s :: after →
      SessionStep transcript Unrecorded (fun _ _ => True) Initiator.resume
        ((s.store, s.record), s.task) ev ((d, record), task) →
      (∀ i, record ≠ s.record ++ [.receive i]) →
      NetStep corrupt net () { net with
        clients := before ++ { s with store := d, record, task } :: after }
  /-- A client's session is given a text, any text, with the key that
  `peers.json` holds for its peer. -/
  | answer {net : Net} {s : ClientSession} {before after : List ClientSession}
      {a : Initiator.Await} (i : Incoming) (given : Given) (peers : JsonFile PeerConfig) :
      net.clients = before ++ s :: after → s.task = Proc.ret a →
      given.expected = expectedPeerKey peers s.url →
      NetStep corrupt net () { net with
        clients := before ++ { s with
          record := s.record ++ [.receive (i, given)]
          task := Initiator.resume a (i, given) } :: after
        made := signedBy peers s.url a (i, given) ++ net.made }
  /-- Something is signed outside these sessions. -/
  | sign {net : Net} {m : Made} : m.Genuine corrupt →
      (∀ peers url posed status, m ≠ .syncAuth peers url posed status) →
      NetStep corrupt net () { net with made := m :: net.made }

/-! ## What a responder has checked -/

omit [Primitives] [Urls] in
/-- The first that a responder received. -/
def opening (record : Responder.Transcript) : Option (Incoming × Ambient) :=
  record.findSome? fun
    | .receive i => some i
    | _ => none

omit [Urls] in
/-- A session has passed its authentication check: what it received first
is a status packet, signed for its channel, the session's nonce and this
responder. -/
def Passed (identity : KeypairFile) (random : Bytes) (record : Responder.Transcript)
    (status : StatusMessage) (chan : ChannelRef) : Prop :=
  ∃ i ambient, opening record = some (i, ambient) ∧ Responder.readStatus i = .ok status ∧
    ChannelRef.parse status.channel = .ok chan ∧
    verifyBytes status.requester status.authSig
      (syncAuthPayload status.authTs chan.fullName (hexEncode random) identity.publicKey) = .ok ()

variable {identity : KeypairFile} {random : Bytes} {record : Responder.Transcript}
  {status : StatusMessage} {chan : ChannelRef} {d : Datadir}

omit [Urls] in
theorem Passed.concat (h : Passed identity random record status chan)
    (e : Entry Call Frame (Incoming × Ambient)) :
    Passed identity random (record ++ [e]) status chan := by
  obtain ⟨i, ambient, hopening, hrest⟩ := h
  refine ⟨i, ambient, ?_, hrest⟩
  rw [opening, List.findSome?_append, ← opening, hopening]
  rfl

omit [Urls] in
/-- Everything but the challenge comes after the check. -/
def Guarded (identity : KeypairFile) (random : Bytes) (record : Responder.Transcript)
    (e : Entry Call Frame (Incoming × Ambient)) : Prop :=
  (∃ m, e = .send (.challenge m)) ∨ ∃ status chan, Passed identity random record status chan

omit [Urls] in
/-- What holds where a responder waits. -/
def Responder.Waits (identity : KeypairFile) (random : Bytes) :
    Except Error Responder.Await → Datadir × Responder.Transcript → Prop
  | .ok a, g => (∃ status chan, Passed identity random g.2 status chan) ∨
      ∃ m, a = .status m ∧ m.nonce = hexEncode random ∧ m.responder = identity.publicKey ∧
        opening g.2 = none
  | .error _, _ => True

omit [Urls] in
theorem guarded_start (identity : KeypairFile) (random : Bytes) (now : Int64) (d : Datadir) :
    wp transcript (recorded (Guarded identity random)) (Responder.start identity random now)
      (Responder.Waits identity random) (d, []) := by
  rw [Responder.start]
  cases hmake : makeAuthChallenge identity "/sync" random now with
  | error e => exact wp_recorded_fail fun _ => trivial
  | ok m =>
    obtain ⟨signature, -, hm⟩ := bind_eq_ok.1 hmake
    cases hm
    exact wp_recorded_send (Or.inl ⟨_, rfl⟩) fun _ => wp_recorded_ret fun _ =>
      Or.inr ⟨_, rfl, rfl, rfl, rfl⟩

omit [Urls] in
/-- A session that has passed the check has passed it. -/
theorem guarded_of_passed (p : Session Responder.Await)
    (h : ∃ status chan, Passed identity random record status chan) :
    wp transcript (recorded (Guarded identity random)) p (Responder.Waits identity random)
      (d, record) := by
  refine wp_mono ?_ (wp_only (J := fun record => ∃ status chan,
    Passed identity random record status chan) ?_ ?_ (each_any p) h)
  · rintro (e | a) ⟨d, record⟩ h
    · trivial
    · exact Or.inl h
  · rintro l b record - ⟨status, chan, h⟩
    exact ⟨Or.inr ⟨status, chan, h⟩, status, chan, h.concat _⟩
  · rintro m record ⟨status, chan, h⟩
    exact ⟨Or.inr ⟨status, chan, h⟩, status, chan, h.concat _⟩

omit [Urls] in
/-- What a status packet that is taken has been checked for. -/
theorem verifyBytes_of_checkStatus {m : AuthChallenge} {now now' : Int64}
    (h : Responder.checkStatus m status now now' = .ok chan) :
    ChannelRef.parse status.channel = .ok chan ∧
      verifyBytes status.requester status.authSig (syncAuthPayload status.authTs chan.fullName
        m.nonce m.responder) = .ok () := by
  have hchecked := (Responder.checkStatus_ok.1 h).1
  have hverify := hchecked.signature
  rw [← ChannelRef.fullName_of_parse hchecked.channel] at hverify
  exact ⟨hchecked.channel, hverify⟩

omit [Urls] in
/-- **From one point of waiting to the next.** -/
theorem guarded_resume (a : Responder.Await) (i : Incoming × Ambient)
    (g : Datadir × Responder.Transcript) (h : Responder.Waits identity random (.ok a) g) :
    wp transcript (recorded (Guarded identity random)) (Responder.resume a i)
      (Responder.Waits identity random) (transcript.receive i g) := by
  obtain ⟨d, record⟩ := g
  obtain ⟨i, ambient⟩ := i
  change wp _ _ _ _ (d, record ++ [.receive (i, ambient)])
  rcases h with ⟨status, chan, h⟩ | ⟨m, rfl, hnonce, hresponder, hnone⟩
  · exact guarded_of_passed _ ⟨status, chan, h.concat _⟩
  · rw [Responder.resume]
    cases hread : Responder.readStatus i with
    | error e => exact wp_recorded_fail fun _ => trivial
    | ok status =>
      rw [Proc.lift_ok_bind]
      cases hcheck : Responder.checkStatus m status ambient.now ambient.now' with
      | error e => exact wp_recorded_fail fun _ => trivial
      | ok chan =>
        obtain ⟨hparse, hverify⟩ := verifyBytes_of_checkStatus hcheck
        have hopening : opening (record ++ [.receive (i, ambient)]) = some (i, ambient) := by
          rw [opening, List.findSome?_append, ← opening, hnone]
          rfl
        refine guarded_of_passed _ ⟨status, chan, i, ambient, hopening, hread, hparse, ?_⟩
        rw [← hnonce, ← hresponder]
        exact hverify

/-! ## The invariant of the net -/

/-- What holds of a responder's session beside the others. -/
structure ResponderSession.Ok (made : List Made) (s : ResponderSession) : Prop where
  key : ∃ key : HexKey, key.text = s.identity.publicKey
  length : s.random.length = 32
  unforged : ∀ i, .receive i ∈ s.record → Unforged made i.1
  guarded : wp transcript (recorded (Guarded s.identity s.random)) s.task
    (Responder.Waits s.identity s.random) (s.store, s.record)
  admitted : Admitted (Guarded s.identity s.random) s.record

/-- The invariant: what was made is genuine, and no responder uses a nonce
twice. -/
structure Net.Ok (corrupt : Set Bytes) (net : Net) : Prop where
  genuine : ∀ m ∈ net.made, m.Genuine corrupt
  fresh : (net.responders.map fun s => (s.identity.publicKey, s.random)).Nodup
  responders : ∀ s ∈ net.responders, s.Ok net.made

variable {corrupt : Set Bytes} {net net' : Net} {made made' : List Made}
  {s t : ResponderSession}

omit [Urls] in
theorem Unforged.mono {i : Incoming} (h : Unforged made i) (hsub : made ⊆ made') :
    Unforged made' i := by
  cases i with
  | text t =>
    intro status hstatus key sig payload hkey hsig hverify
    obtain ⟨m, hm, hsigns⟩ := h status hstatus key sig payload hkey hsig hverify
    exact ⟨m, hsub hm, hsigns⟩
  | _ => trivial

omit [Urls] in
theorem ResponderSession.Ok.mono (h : s.Ok made) (hsub : made ⊆ made') : s.Ok made' where
  key := h.key
  length := h.length
  unforged i hi := (h.unforged i hi).mono hsub
  guarded := h.guarded
  admitted := h.admitted

omit [Urls] in
/-- **A responder's session goes on.** -/
theorem ResponderSession.Ok.serves (h : s.Ok made) (hserves : Serves made s t) :
    t.Ok made ∧ t.identity = s.identity ∧ t.random = s.random := by
  obtain ⟨hstep, hunforged⟩ := hserves
  obtain ⟨hguarded, hadmitted⟩ := admitted_of_step guarded_resume hstep h.guarded h.admitted
  refine ⟨⟨h.key, h.length, ?_, hguarded, hadmitted⟩, rfl, rfl⟩
  intro i hi
  rcases record_of_step hstep with rfl | ⟨e, rfl⟩
  · exact h.unforged i hi
  · rcases List.mem_append.1 hi with hi | hi
    · exact h.unforged i hi
    · obtain rfl := List.mem_singleton.1 hi
      exact hunforged i rfl

/-- What a client signs is genuine. -/
theorem genuine_signedBy {peers : JsonFile PeerConfig} {url : String} {a : Initiator.Await}
    {i : Incoming} {given : Given} (hexpected : given.expected = expectedPeerKey peers url) :
    ∀ m ∈ signedBy peers url a (i, given), m.Genuine corrupt := by
  intro m hm
  cases a with
  | challenge chan chunks policyEvents moderationEvents identity authTs =>
    rw [signedBy] at hm
    split at hm
    · cases hm
    split at hm
    · cases hm
    · rename_i status hanswer
      obtain rfl := List.mem_singleton.1 hm
      exact ⟨chan, chunks, policyEvents, moderationEvents, identity, authTs, given, hexpected,
        hanswer⟩
  | _ => cases hm

theorem genuine_challengeOf {now : Int64} (hkey : ∃ key : HexKey, key.text = identity.publicKey)
    (hlength : random.length = 32) :
    ∀ m ∈ challengeOf identity random now, m.Genuine corrupt := by
  intro m hm
  rw [challengeOf] at hm
  split at hm
  · cases hm
  · rename_i m' hmake
    obtain rfl := List.mem_singleton.1 hm
    exact ⟨hkey, random, now, hlength, hmake⟩

/-- **A step keeps the invariant.** -/
theorem Net.Ok.step (h : net.Ok corrupt) (hstep : NetStep corrupt net () net') :
    net'.Ok corrupt := by
  cases hstep with
  | listen identity random now d hkey hlength hfresh =>
    refine ⟨?_, ?_, ?_⟩
    · intro m hm
      rcases List.mem_append.1 hm with hm | hm
      · exact genuine_challengeOf hkey hlength m hm
      · exact h.genuine m hm
    · rw [List.map_cons, List.nodup_cons]
      refine ⟨?_, h.fresh⟩
      rw [List.mem_map]
      rintro ⟨s, hs, heq⟩
      obtain ⟨hkey', hrandom⟩ := Prod.mk.injEq .. ▸ heq
      exact hfresh s hs hkey' hrandom
    · intro s hs
      rcases List.mem_cons.1 hs with rfl | hs
      · exact ⟨hkey, hlength, fun i hi => absurd hi List.not_mem_nil,
          guarded_start identity random now d, admitted_nil⟩
      · exact (h.responders s hs).mono (List.subset_append_right _ _)
  | dial => exact ⟨h.genuine, h.fresh, h.responders⟩
  | @serve s t before after hs hserves =>
    have hmem {r : ResponderSession} (hr : r ∈ before ++ after) : r ∈ net.responders := by
      rw [hs]
      simp only [List.mem_append, List.mem_cons] at hr ⊢
      exact hr.imp_right Or.inr
    have hs' : s ∈ net.responders := by
      rw [hs]
      simp
    obtain ⟨ht, hidentity, hrandom⟩ := (h.responders s hs').serves hserves
    refine ⟨h.genuine, ?_, ?_⟩
    · have hfresh := h.fresh
      rw [hs] at hfresh
      simpa [hidentity, hrandom] using hfresh
    · intro r hr
      simp only [List.mem_append, List.mem_cons] at hr
      rcases hr with hr | rfl | hr
      · exact h.responders r (hmem (List.mem_append_left _ hr))
      · exact ht
      · exact h.responders r (hmem (List.mem_append_right _ hr))
  | work => exact ⟨h.genuine, h.fresh, h.responders⟩
  | answer i given peers hs htask hexpected =>
    refine ⟨?_, h.fresh, fun s hs => (h.responders s hs).mono (List.subset_append_right _ _)⟩
    intro m hm
    rcases List.mem_append.1 hm with hm | hm
    · exact genuine_signedBy hexpected m hm
    · exact h.genuine m hm
  | sign hm _ =>
    refine ⟨?_, h.fresh, fun s hs => (h.responders s hs).mono (List.subset_cons_self _ _)⟩
    intro m' hm'
    rcases List.mem_cons.1 hm' with rfl | hm'
    · exact hm
    · exact h.genuine m' hm'

theorem Net.ok_empty : ({} : Net).Ok corrupt :=
  ⟨fun _ hm => absurd hm List.not_mem_nil, List.nodup_nil, fun _ hs => absurd hs List.not_mem_nil⟩

/-- **In every run.** -/
theorem Net.Ok.run {ls : List Unit} (hrun : Run (NetStep corrupt) {} ls net) : net.Ok corrupt :=
  hrun.invariant (fun _ _ _ h hstep => h.step hstep) Net.ok_empty

omit [Urls] in
/-- The payload that a responder checks. -/
theorem ResponderSession.Ok.payload (h : s.Ok made) (ts : Int64) (chan : ChannelRef) :
    ∃ nonce responder : HexKey, nonce.text = hexEncode s.random ∧
      responder.text = s.identity.publicKey ∧
      syncAuthPayload ts chan.fullName (hexEncode s.random) s.identity.publicKey =
        (Signed.syncAuth ts chan nonce responder).bytes := by
  obtain ⟨responder, hresponder⟩ := h.key
  exact ⟨⟨hexEncode s.random, s.random, hexDecode_hexEncode _, h.length⟩, responder, rfl,
    hresponder, by rw [Signed.bytes, hresponder]⟩

omit [Urls] in
/-- **What passed was signed.** -/
theorem ResponderSession.Ok.made_of_passed (h : s.Ok made)
    (hpassed : Passed s.identity s.random s.record status chan) :
    ∃ key sig, hexDecode status.requester = some key ∧ hexDecode status.authSig = some sig ∧
      ∃ m ∈ made, m.Signs key (syncAuthPayload status.authTs chan.fullName (hexEncode s.random)
        s.identity.publicKey) sig := by
  obtain ⟨i, ambient, hopening, hread, hparse, hverify⟩ := hpassed
  obtain ⟨e, he, hi⟩ := List.exists_of_findSome?_eq_some hopening
  obtain rfl : e = .receive (i, ambient) := by
    cases e with
    | receive j =>
      cases hi
      rfl
    | _ => cases hi
  obtain ⟨key, hkey, hverify⟩ := bind_eq_ok.1 hverify
  obtain ⟨-, -, hverify⟩ := bind_eq_ok.1 hverify
  obtain ⟨sig, hsig, hverify⟩ := bind_eq_ok.1 hverify
  obtain ⟨-, -, hverify⟩ := bind_eq_ok.1 hverify
  have hverified : verify key sig (syncAuthPayload status.authTs chan.fullName
      (hexEncode s.random) s.identity.publicKey) = true := by
    simpa using hverify
  refine ⟨key, sig, orBail_eq_ok.1 hkey, orBail_eq_ok.1 hsig, ?_⟩
  have hunforged := h.unforged _ he
  cases i with
  | text t =>
    obtain ⟨status', hstatus', hrest⟩ := bind_eq_ok.1 hread
    obtain ⟨-, -, hrest⟩ := bind_eq_ok.1 hrest
    cases hrest
    exact hunforged status (orBail_eq_ok.1 hstatus') key sig _ (orBail_eq_ok.1 hkey)
      (orBail_eq_ok.1 hsig) hverified
  | _ => cases hread

/-! ## Agreement -/

/-- No signature was made for two payloads. -/
def Apart (made : List Made) : Prop :=
  ∀ m ∈ made, ∀ m' ∈ made, ∀ key key' payload payload' sig,
    m.Signs key payload sig → m'.Signs key' payload' sig → payload = payload'

/-- **Authentication agreement**, in every run of the net.

* A session that passes its check has a signature by the holder of the
  requester's key for exactly its channel, its nonce and its responder, at
  the time the packet gives; a holder who runs the program made it in a
  sync of that channel, for that challenge.
* Before the check a session makes no call and sends the challenge only.
* What was signed passes in one session: no payload passes in two, and
  where signatures are apart, no signature does.
* A client signs for the responder it has pinned, and no other. -/
theorem authentication_agreement {ls : List Unit} (hrun : Run (NetStep corrupt) {} ls net) :
    (∀ s ∈ net.responders, ∀ status chan, Passed s.identity s.random s.record status chan →
      ∃ key sig, hexDecode status.requester = some key ∧ hexDecode status.authSig = some sig ∧
        ∃ m ∈ net.made,
          m.Signs key (syncAuthPayload status.authTs chan.fullName (hexEncode s.random)
            s.identity.publicKey) sig ∧
          (key ∈ corrupt ∨ ∃ peers url posed status', m = .syncAuth peers url posed status' ∧
            status'.authTs = status.authTs ∧ status'.channel = chan.fullName ∧
            posed.nonce = hexEncode s.random ∧ posed.responder = s.identity.publicKey)) ∧
    (∀ s ∈ net.responders, ∀ before e after, s.record = before ++ e :: after →
      (∀ i, e ≠ .receive i) → (∀ m, e ≠ .send (.challenge m)) →
      ∃ status chan, Passed s.identity s.random before status chan) ∧
    (∀ s ∈ net.responders, ∀ s' ∈ net.responders, ∀ status status' chan chan',
      Passed s.identity s.random s.record status chan →
      Passed s'.identity s'.random s'.record status' chan' →
      (syncAuthPayload status.authTs chan.fullName (hexEncode s.random) s.identity.publicKey =
          syncAuthPayload status'.authTs chan'.fullName (hexEncode s'.random)
            s'.identity.publicKey ∨
        (Apart net.made ∧ hexDecode status.authSig = hexDecode status'.authSig)) → s = s') ∧
    (∀ peers url posed status key, .syncAuth peers url posed status ∈ net.made →
      Pins peers url key → posed.responder = key) ∧
    (∀ peers url posed request key, .discoveryAuth peers url posed request ∈ net.made →
      Pins peers url key → posed.responder = key) := by
  have hok := Net.Ok.run hrun
  refine ⟨?_, ?_, ?_, ?_, ?_⟩
  · intro s hs status chan hpassed
    have hs := hok.responders s hs
    obtain ⟨key, sig, hkey, hsig, m, hm, hsigns⟩ := hs.made_of_passed hpassed
    refine ⟨key, sig, hkey, hsig, m, hm, hsigns, ?_⟩
    obtain ⟨nonce, responder, hnonce, hresponder, hpayload⟩ := hs.payload status.authTs chan
    rcases (hok.genuine m hm).of_syncAuth hsigns hpayload with hcorrupt | hsync
    · exact Or.inl hcorrupt
    · rw [hnonce, hresponder] at hsync
      exact Or.inr hsync
  · intro s hs before e after heq hreceive hchallenge
    rcases (hok.responders s hs).admitted before e after heq with ⟨i, hi⟩ | ⟨m, hm⟩ | hpassed
    · exact absurd hi (hreceive i)
    · exact absurd hm (hchallenge m)
    · exact hpassed
  · intro s hs s' hs' status status' chan chan' hpassed hpassed' hsame
    have hpayloads : syncAuthPayload status.authTs chan.fullName (hexEncode s.random)
        s.identity.publicKey = syncAuthPayload status'.authTs chan'.fullName
          (hexEncode s'.random) s'.identity.publicKey := by
      rcases hsame with hpayloads | ⟨hapart, hsame⟩
      · exact hpayloads
      · obtain ⟨key, sig, -, hsig, m, hm, hsigns⟩ := (hok.responders s hs).made_of_passed hpassed
        obtain ⟨key', sig', -, hsig', m', hm', hsigns'⟩ :=
          (hok.responders s' hs').made_of_passed hpassed'
        obtain rfl : sig = sig' := Option.some.inj (hsig.symm.trans (hsame.trans hsig'))
        exact hapart m hm m' hm' key key' _ _ sig hsigns hsigns'
    -- one payload names one nonce and one responder
    obtain ⟨nonce, responder, hnonce, hresponder, hbytes⟩ :=
      (hok.responders s hs).payload status.authTs chan
    obtain ⟨nonce', responder', hnonce', hresponder', hbytes'⟩ :=
      (hok.responders s' hs').payload status'.authTs chan'
    rw [hbytes, hbytes'] at hpayloads
    obtain ⟨-, -, rfl, rfl⟩ := Signed.syncAuth.inj (Signed.eq_of_bytes hpayloads)
    have hkeys : s.identity.publicKey = s'.identity.publicKey := hresponder.symm.trans hresponder'
    have hnonces : s.random = s'.random := hexEncode_injective (hnonce.symm.trans hnonce')
    refine List.inj_on_of_nodup_map hok.fresh hs hs' ?_
    rw [hkeys, hnonces]
  · intro peers url posed status key hm hpins
    obtain ⟨_, _, _, _, _, _, given, hexpected, hanswer⟩ := hok.genuine _ hm
    obtain ⟨expected, _, hgiven, hverify, -⟩ := Initiator.answerChallenge_ok.1 hanswer
    obtain rfl := expectedPeerKey_of_pins hpins (hexpected.symm.trans hgiven)
    exact ((verifyAuthChallenge_ok.1 hverify).2.2.2.1 key rfl).symm
  · intro peers url posed request key hm hpins
    obtain ⟨_, _, _, _, hrequest⟩ := hok.genuine _ hm
    obtain ⟨expected, hexpected, hverify, -⟩ := discoveryRequest_ok hrequest
    obtain rfl := expectedPeerKey_of_pins hpins hexpected
    exact ((verifyAuthChallenge_ok.1 hverify).2.2.2.1 key rfl).symm

end Authentication

/-! ### One session -/

section OneSession

open Simulated

/-- The nonce of the session, and what its requester signs. -/
def sessionNonce : Bytes := List.replicate 32 0

/-- What the session's signature covers. -/
def sessionPayload : Bytes :=
  syncAuthPayload 0 general.fullName (hexEncode sessionNonce) (identity 4).publicKey

/-- Signatures under which the requester's is theirs alone. -/
def sessionSignature (publicKey payload : Bytes) : Bytes :=
  if publicKey = List.replicate 32 3 ∧ payload = sessionPayload then List.replicate 64 1
  else List.replicate 64 0

/-- The simulated libraries with these signatures. -/
@[reducible] noncomputable def sessionPrimitives : Primitives where
  __ := simulated
  verify publicKey sig payload := sig == sessionSignature publicKey payload
  sign secretKey payload :=
    (hexDecode secretKey).map fun pair => sessionSignature (pair.drop 32) payload

/-- Addresses of the form `ws://host`. -/
@[reducible] def plainUrls : Urls where
  Url := String
  parse s := if s.startsWith "ws://" then some (s.drop 5).toString else none
  scheme _ := "ws"
  host := some
  path _ := "/"
  withoutQuery url := url
  setPath _ url := url
  setScheme _ url := some url
  render url := s!"ws://{url}/sync"

attribute [local instance] sessionPrimitives plainUrls

/-- The challenge of the session. -/
def posed : AuthChallenge where
  msgType := "challenge"
  nonce := hexEncode sessionNonce
  responder := (identity 4).publicKey
  expires := 60
  signature := hexEncode (List.replicate 64 0)

theorem makeAuthChallenge_posed :
    makeAuthChallenge (identity 4) "/sync" sessionNonce 0 = .ok posed := by
  have hsign (payload : Bytes) :
      (identity 4).signBytes payload = .ok (hexEncode (List.replicate 64 0)) := by
    have : Primitives.sign (identity 4).secretKey payload = some (List.replicate 64 0) := by
      change (hexDecode (hexEncode _)).map _ = _
      rw [hexDecode_hexEncode]
      simp [sessionSignature, show ¬ (4 : UInt8) = 3 by decide]
    rw [KeypairFile.signBytes, this]
    rfl
  rw [makeAuthChallenge, hsign]
  rfl

/-- The requester's packet. -/
def request : StatusMessage where
  msgType := "status"
  version := syncVersion
  channel := general.fullName
  requester := (identity 3).publicKey
  authTs := 0
  authSig := hexEncode (List.replicate 64 1)
  policyEvents := []
  moderationEvents := []
  chunks := []

theorem eq_of_verify_request {key sig payload : Bytes}
    (hkey : hexDecode request.requester = some key) (hsig : hexDecode request.authSig = some sig)
    (hverify : verify key sig payload = true) :
    key = List.replicate 32 3 ∧ payload = sessionPayload ∧ sig = List.replicate 64 1 := by
  change hexDecode (hexEncode _) = _ at hkey hsig
  rw [hexDecode_hexEncode, Option.some.injEq] at hkey hsig
  have hverify : sig = sessionSignature key payload := beq_iff_eq.1 hverify
  rw [← hkey, ← hsig, sessionSignature] at hverify
  split at hverify
  · rename_i h
    exact ⟨hkey.symm, h.2, hsig.symm⟩
  · exact absurd hverify (by decide)

theorem passed_request {ambient : Ambient} :
    Passed (identity 4) sessionNonce
      [.send (.challenge posed), .receive (.text { status := some request }, ambient)] request
      general := by
  refine ⟨_, ambient, rfl, rfl, ChannelRef.parse_fullName general, ?_⟩
  have hverify : verify (List.replicate 32 3) (List.replicate 64 1) sessionPayload = true := by
    change (List.replicate 64 1 == sessionSignature _ _) = true
    simp [sessionSignature]
  simp only [verifyBytes, bind_eq_ok, bailIf_eq_ok, orBail_eq_ok]
  exact ⟨_, hexDecode_hexEncode _, (), by simp, _, hexDecode_hexEncode _, (), by simp,
    (Bool.not_eq_false _).mpr hverify⟩

/-- A hash set in the order of its elements. -/
def sortedOrder : Iteration where
  list s := s.sort (· ≤ ·)
  nodup s := s.sort_nodup (· ≤ ·)
  toFinset s := s.sort_toFinset (· ≤ ·)

/-- The session at its challenge, waiting, and with the packet. -/
def served (record : Responder.Transcript) (task : Session Responder.Await) : ResponderSession where
  identity := identity 4
  random := sessionNonce
  store := {}
  record := record
  task := task

/-- The two signatures of the run: the requester signs by other means. -/
def signatures : List Made :=
  [.foreign (List.replicate 32 3) sessionPayload (List.replicate 64 1),
    .challenge .sync (identity 4) posed]

theorem unforged_request : Unforged signatures (.text { status := some request }) := by
  rintro status hstatus key sig payload hkey hsig hverify
  obtain rfl : request = status := Option.some.inj hstatus
  obtain ⟨rfl, rfl, rfl⟩ := eq_of_verify_request hkey hsig hverify
  exact ⟨_, List.mem_cons_self, rfl, rfl, rfl⟩

theorem netStep_served {corrupt : Set Bytes} {made : List Made} {s t : ResponderSession}
    (h : Serves made s t) :
    NetStep corrupt { responders := [s], made } () { responders := [t], made } := by
  have hnet : ({ responders := [s], made } : Net).responders = [] ++ s :: [] := rfl
  exact .serve hnet h

theorem run_served (ambient : Ambient) : ∃ ls, Run (NetStep {List.replicate 32 3}) {} ls
    { responders := [served
        [.send (.challenge posed), .receive (.text { status := some request }, ambient)]
        (Responder.resume (.status posed) (.text { status := some request }, ambient))]
      made := signatures } := by
  have hkey : ∃ key : HexKey, key.text = (identity 4).publicKey :=
    ⟨⟨_, _, hexDecode_hexEncode _, by simp⟩, rfl⟩
  have hstart : Responder.start (identity 4) sessionNonce 0 =
      Proc.send (.challenge posed) (Proc.ret (.status posed)) := by
    rw [Responder.start, makeAuthChallenge_posed]
    rfl
  have hchallenge : challengeOf (identity 4) sessionNonce 0 =
      [.challenge .sync (identity 4) posed] := by
    rw [challengeOf, makeAuthChallenge_posed]
  have hlisten : NetStep {List.replicate 32 3} {} ()
      { responders := [served [] (Proc.send (.challenge posed) (Proc.ret (.status posed)))]
        made := [.challenge .sync (identity 4) posed] } := by
    have hstep : NetStep {List.replicate 32 3} {} () _ :=
      .listen (identity 4) sessionNonce 0 {} hkey List.length_replicate (by simp)
    rwa [hstart, hchallenge] at hstep
  have hsign : NetStep {List.replicate 32 3}
      { responders := [served [] (Proc.send (.challenge posed) (Proc.ret (.status posed)))]
        made := [.challenge .sync (identity 4) posed] } ()
      { responders := [served [] (Proc.send (.challenge posed) (Proc.ret (.status posed)))]
        made := signatures } := .sign rfl (by simp)
  have hsend : Serves signatures
      (served [] (Proc.send (.challenge posed) (Proc.ret (.status posed))))
      (served [.send (.challenge posed)] (Proc.ret (.status posed))) :=
    .step (.advance rfl trivial) (by simp [served])
  have htake : Serves signatures (served [.send (.challenge posed)] (Proc.ret (.status posed)))
      (served [.send (.challenge posed), .receive (.text { status := some request }, ambient)]
        (Responder.resume (.status posed) (.text { status := some request }, ambient))) := by
    refine .step (.receive _) ?_
    intro i hi
    simp only [served, List.cons_append, List.nil_append, List.cons.injEq, Entry.receive.injEq,
      and_true, true_and] at hi
    rw [← hi]
    exact unforged_request
  exact ⟨_, ((((Run.nil _).snoc hlisten).snoc hsign).snoc (netStep_served hsend)).snoc
    (netStep_served htake)⟩

/-- The law for the session. -/
theorem authentication_agreement_session : ∃ (net : Net) (s : ResponderSession),
    s ∈ net.responders ∧ Passed s.identity s.random s.record request general ∧
      ∃ m ∈ net.made, m.Signs (List.replicate 32 3) sessionPayload (List.replicate 64 1) := by
  obtain ⟨ls, hrun⟩ := run_served ⟨0, 0, fun _ => [], sortedOrder, sortedOrder⟩
  obtain ⟨key, sig, hkey, hsig, m, hm, hsigns, -⟩ :=
    (authentication_agreement hrun).1 _ (List.mem_singleton_self _) request general passed_request
  change hexDecode (hexEncode _) = _ at hkey hsig
  rw [hexDecode_hexEncode, Option.some.injEq] at hkey hsig
  subst hkey hsig
  exact ⟨_, _, List.mem_singleton_self _, passed_request, m, hm, hsigns⟩

end OneSession

end Embernet
