import Embernet.Model.Decoding
import Embernet.Model.Policy
import Embernet.Model.Simulated
/-!
# Defaults — signed texts that leave a field out

A policy reads the same whether the fields with a default are written or
left out. The id of an event and its signature are of a text, and the text
is made anew from what was read, with every field in it. So an adoption
that was signed over a text without them reads, and is no event of any
history.
-/

set_option autoImplicit false

namespace Embernet

open Json (str num obj opt)
open Primitives

/-- A policy as a signer may write it: the fields that have a default, if
they are written. -/
structure WrittenPolicy where
  version : UInt32
  mode : PolicyMode
  visibility : Option ChannelVisibility
  owner : Option String
  moderators : List String
  writers : List String
  readers : Option (List String)

namespace WrittenPolicy

/-- What it means. -/
def policy (p : WrittenPolicy) : ChannelPolicy where
  version := p.version
  mode := p.mode
  visibility := p.visibility.getD .public_
  owner := p.owner
  moderators := p.moderators
  writers := p.writers
  readers := p.readers.getD []

/-- How it is written. -/
def toJson (p : WrittenPolicy) : Json :=
  obj ([("version", num p.version.toNat), ("mode", p.mode.toJson)] ++
    (p.visibility.map fun v => ("visibility", v.toJson)).toList ++
    [("owner", opt str p.owner), ("moderators", strings p.moderators),
      ("writers", strings p.writers)] ++
    (p.readers.map fun ss => ("readers", strings ss)).toList)

/-- A field is left out. -/
def Omits (p : WrittenPolicy) : Prop := p.visibility = none ∨ p.readers = none

/-- **It reads as what it means.** -/
theorem ofJson_toJson (p : WrittenPolicy) : ChannelPolicy.ofJson p.toJson = some p.policy := by
  obtain ⟨version, mode, visibility, owner, moderators, writers, readers⟩ := p
  simp only [ChannelPolicy.ofJson, Option.bind_eq_bind, Option.bind_eq_some_iff]
  cases visibility with
  | none =>
    cases readers with
    | none =>
      exact ⟨_, rfl, _, asU32_num _, _, PolicyMode.ofJson_toJson _, _, rfl, _,
        Json.asOptStr_opt _, _, asStrings_strings _, _, asStrings_strings _, _, rfl, rfl⟩
    | some readers =>
      exact ⟨_, rfl, _, asU32_num _, _, PolicyMode.ofJson_toJson _, _, rfl, _,
        Json.asOptStr_opt _, _, asStrings_strings _, _, asStrings_strings _, _,
        asStrings_strings _, rfl⟩
  | some visibility =>
    cases readers with
    | none =>
      exact ⟨_, rfl, _, asU32_num _, _, PolicyMode.ofJson_toJson _, _,
        ChannelVisibility.ofJson_toJson _, _, Json.asOptStr_opt _, _, asStrings_strings _, _,
        asStrings_strings _, _, rfl, rfl⟩
    | some readers =>
      exact ⟨_, rfl, _, asU32_num _, _, PolicyMode.ofJson_toJson _, _,
        ChannelVisibility.ofJson_toJson _, _, Json.asOptStr_opt _, _, asStrings_strings _, _,
        asStrings_strings _, _, asStrings_strings _, rfl⟩

/-- But is not written as it. -/
theorem toJson_ne {p : WrittenPolicy} (h : p.Omits) : p.toJson ≠ p.policy.toJson := by
  obtain ⟨version, mode, visibility, owner, moderators, writers, readers⟩ := p
  rcases h with h | h
  · cases h
    cases readers <;> simp [toJson, policy, ChannelPolicy.toJson]
  · cases h
    cases visibility <;> simp [toJson, policy, ChannelPolicy.toJson]

end WrittenPolicy

/-- An adoption as its signer writes it. -/
structure WrittenAdoption where
  id : String
  channel : String
  actor : String
  ts : Int64
  previous : Option String
  policy : WrittenPolicy
  sig : String

namespace WrittenAdoption

/-- What the signer's id hashes and its signature covers. -/
def payload (a : WrittenAdoption) : Json :=
  obj [("channel", str a.channel), ("actor", str a.actor), ("ts", timestamp a.ts),
    ("previous", opt str a.previous),
    ("action", obj [("type", str "adopt"), ("policy", a.policy.toJson)])]

/-- The record as its signer writes it. -/
def toJson (a : WrittenAdoption) : Json :=
  obj [("id", str a.id), ("channel", str a.channel), ("actor", str a.actor),
    ("ts", timestamp a.ts), ("previous", opt str a.previous),
    ("action", obj [("type", str "adopt"), ("policy", a.policy.toJson)]), ("sig", str a.sig)]

/-- The event it reads as. -/
def event (a : WrittenAdoption) : PolicyEvent where
  id := a.id
  channel := a.channel
  actor := a.actor
  ts := a.ts
  previous := a.previous
  action := .adopt a.policy.policy
  sig := a.sig

/-- **It is read**, with the defaults in it. -/
theorem ofJson_toJson (a : WrittenAdoption) : PolicyEvent.ofJson a.toJson = some a.event := by
  have haction : PolicyAction.ofJson (obj [("type", str "adopt"), ("policy", a.policy.toJson)]) =
      some (.adopt a.policy.policy) := by
    change (ChannelPolicy.ofJson a.policy.toJson).bind (fun policy => some (PolicyAction.adopt policy)) = _
    rw [a.policy.ofJson_toJson]
    rfl
  simp only [PolicyEvent.ofJson, Option.bind_eq_bind, Option.bind_eq_some_iff]
  exact ⟨_, rfl, _, rfl, _, rfl, _, rfl, _, asI64_timestamp _, _, Json.asOptStr_opt _, _, haction,
    _, rfl, rfl⟩

/-- What is hashed again is another text. -/
theorem payload_ne {a : WrittenAdoption} (h : a.policy.Omits) :
    a.payload.compact ≠ a.event.payload.compact := by
  intro heq
  have hjson := Json.compact_injective heq
  simp only [payload, event, PolicyEvent.payload, policyEventPayload, PolicyAction.toJson] at hjson
  refine WrittenPolicy.toJson_ne h ?_
  simpa using hjson

end WrittenAdoption

section Defaults

variable [Primitives] {a : WrittenAdoption}

/-- The signer made the id and the signature of the text it wrote. -/
structure SignedAsWritten (a : WrittenAdoption) : Prop where
  id : a.id = hashHex a.payload.compact
  sig : verifyBytes a.actor a.sig (utf8 "embernet-policy-v1\n" ++ a.payload.compact) = .ok ()

/-- The chain before it leads to where its action is allowed. -/
structure Adoptable (chan : ChannelRef) (before : List PolicyEvent) (a : WrittenAdoption) :
    Prop where
  channel : a.channel = chan.fullName
  derives : ∃ s policy, replayPolicy chan before = .ok s ∧ s.previous = a.previous ∧
    applyPolicyAction s.policy a.actor (.adopt a.policy.policy) = .ok policy

/-- The adoption is read, and accepted in the chain, with what it means. -/
def SurvivesDefaults (chan : ChannelRef) (before : List PolicyEvent) (a : WrittenAdoption) :
    Prop :=
  ∃ e, readPolicyEvent a.toJson.compact = some e ∧
    derivePolicy chan (before ++ [e]) = .ok a.policy.policy

/-- **No history holds it**: the id that is computed of it is another. -/
theorem derivePolicy_of_mem_event {chan : ChannelRef} {events : List PolicyEvent}
    {policy : ChannelPolicy} (homits : a.policy.Omits) (hsigned : SignedAsWritten a)
    (hU : Set.InjOn blake3 {a.payload.compact, a.event.payload.compact}) (hmem : a.event ∈ events) :
    derivePolicy chan events ≠ .ok policy := by
  intro h
  obtain ⟨-, hid, -⟩ := mem_of_derivePolicy h hmem
  have hsame : hashHex a.payload.compact = hashHex a.event.payload.compact :=
    hsigned.id.symm.trans hid
  exact WrittenAdoption.payload_ne homits (hashHex_inj_on hU (by simp) (by simp) hsame)

/-- **Signed defaults never survive.** A signed adoption that leaves out a
field with a default is read as the policy with the default in it, and no
chain that holds the event is accepted, whatever stands before it. -/
theorem signed_defaults_never_survive
    (hread : ∀ a : WrittenAdoption,
      readPolicyEvent a.toJson.compact = PolicyEvent.ofJson a.toJson)
    (homits : a.policy.Omits) (hsigned : SignedAsWritten a)
    (hU : Set.InjOn blake3 {a.payload.compact, a.event.payload.compact}) :
    readPolicyEvent a.toJson.compact = some a.event ∧
      (∀ chan events policy, a.event ∈ events → derivePolicy chan events ≠ .ok policy) ∧
      ∀ chan before, ¬ SurvivesDefaults chan before a := by
  have hevent := (hread a).trans a.ofJson_toJson
  refine ⟨hevent, fun chan events policy hmem =>
    derivePolicy_of_mem_event homits hsigned hU hmem, ?_⟩
  rintro chan before ⟨e, he, hderive⟩
  cases hevent.symm.trans he
  exact derivePolicy_of_mem_event homits hsigned hU (by simp) hderive

end Defaults

/-! ### A policy from before the fields -/

section Before

open Simulated

/-- What a derived reader makes of a compact text. -/
noncomputable def readDecoded (b : Bytes) : Option PolicyEvent :=
  open Classical in if h : ∃ value : Json, value.compact = b then PolicyEvent.ofJson h.choose else none

theorem readDecoded_compact (value : Json) :
    readDecoded value.compact = PolicyEvent.ofJson value := by
  have hex : ∃ value' : Json, value'.compact = value.compact := ⟨value, rfl⟩
  rw [readDecoded, dif_pos hex, Json.compact_injective hex.choose_spec]

/-- The simulated libraries, with a reader that knows the defaults. -/
@[reducible] noncomputable def decoding : Primitives :=
  { simulated with
    readPolicyEvent := readDecoded
    readPolicyEvent_compact := fun e => by rw [readDecoded_compact, e.ofJson_toJson] }

attribute [local instance] decoding

/-- A restricted policy, written without the later fields. -/
def earlyPolicy : WrittenPolicy where
  version := 1
  mode := .restricted
  visibility := none
  owner := some (identity 1).publicKey
  moderators := []
  writers := []
  readers := none

/-- Its adoption by its owner, before it is signed. -/
def unsignedAdoption : WrittenAdoption where
  id := ""
  channel := general.fullName
  actor := (identity 1).publicKey
  ts := 0
  previous := none
  policy := earlyPolicy
  sig := ""

/-- An adoption with the id of its text, and its signature by an
identity. -/
def WrittenAdoption.signedBy (a : WrittenAdoption) (n : UInt8) : WrittenAdoption :=
  { a with
    id := hexEncode (Simulated.hash a.payload.compact)
    sig := signatureOf n (utf8 "embernet-policy-v1\n" ++ a.payload.compact) }

theorem signedAsWritten_signedBy {a : WrittenAdoption} {n : UInt8}
    (hactor : a.actor = (identity n).publicKey) : SignedAsWritten (a.signedBy n) where
  id := rfl
  sig := by
    change verifyBytes a.actor (signatureOf n _) _ = .ok ()
    rw [hactor]
    exact verifyBytes_signatureOf n _

/-- Signed by its owner. -/
def earlyAdoption : WrittenAdoption := unsignedAdoption.signedBy 1

theorem signedAsWritten_earlyAdoption : SignedAsWritten earlyAdoption :=
  signedAsWritten_signedBy rfl

theorem adoptable_earlyAdoption : Adoptable general [] earlyAdoption where
  channel := rfl
  derives := ⟨.start, earlyPolicy.policy, rfl, rfl, by decide +kernel⟩

theorem injOn_earlyAdoption : Set.InjOn blake3
    {earlyAdoption.payload.compact, earlyAdoption.event.payload.compact} := by
  have hne : blake3 earlyAdoption.payload.compact ≠ blake3 earlyAdoption.event.payload.compact := by
    decide +kernel
  exact Set.injOn_pair.2 fun h => absurd h hne

/-- The law for that adoption. -/
theorem signed_defaults_never_survive_early :
    readPolicyEvent earlyAdoption.toJson.compact = some earlyAdoption.event ∧
      ∀ chan before, ¬ SurvivesDefaults chan before earlyAdoption := by
  obtain ⟨hread, -, hnever⟩ := signed_defaults_never_survive
    (fun a => readDecoded_compact a.toJson) (.inl rfl)
    signedAsWritten_earlyAdoption injOn_earlyAdoption
  exact ⟨hread, hnever⟩

/-- **An adoption signed before the fields is lost.** Its id and signature
are of the text its signer wrote, the chain before it allows it, it is read
with the defaults, and the chain with it is refused. -/
theorem early_adoption_refused :
    SignedAsWritten earlyAdoption ∧ Adoptable general [] earlyAdoption ∧
      readPolicyEvent earlyAdoption.toJson.compact = some earlyAdoption.event ∧
      earlyAdoption.event.action = .adopt earlyPolicy.policy ∧
      earlyPolicy.policy.visibility = .public_ ∧ earlyPolicy.policy.readers = [] ∧
      ¬ SurvivesDefaults general [] earlyAdoption := by
  have hread : readPolicyEvent earlyAdoption.toJson.compact = some earlyAdoption.event := by
    change readDecoded _ = _
    rw [readDecoded_compact, WrittenAdoption.ofJson_toJson]
  refine ⟨signedAsWritten_earlyAdoption, adoptable_earlyAdoption, hread, rfl, rfl, rfl, ?_⟩
  rintro ⟨e, he, hderive⟩
  obtain rfl : e = earlyAdoption.event := Option.some.inj (he.symm.trans hread)
  have homits : earlyAdoption.policy.Omits := .inl rfl
  have hmem : earlyAdoption.event ∈ [] ++ [earlyAdoption.event] := by simp
  exact derivePolicy_of_mem_event homits signedAsWritten_earlyAdoption injOn_earlyAdoption hmem
    hderive

end Before

end Embernet
