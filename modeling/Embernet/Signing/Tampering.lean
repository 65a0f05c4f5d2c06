import Embernet.Lib.Lines
import Embernet.Model.Simulated
/-!
# Tampering — what an envelope's signature fixes

A verified envelope is fixed by its signature in its channel, its message
and what the message fixes in turn: the id and the clock. Its author is
fixed as a key, whose text may be spelled in either case. The alias is
under nobody's signature.
-/

set_option autoImplicit false

namespace Embernet

open Primitives

section Tampering

variable [Primitives]

/-- The public key of a key file is that of its secret key: what the
secret key signs, the public key verifies. -/
def KeypairFile.Matches (kf : KeypairFile) : Prop :=
  ∃ pk, hexDecode kf.publicKey = some pk ∧ pk.length = 32 ∧
    ∀ payload, ∃ sig, sign kf.secretKey payload = some sig ∧ sig.length = 64 ∧
      verify pk sig payload = true

/-- The signature of a payload verifies for that payload and under the key
it was made with, and for nothing else. -/
def SignatureBinds (kf : KeypairFile) (payload : Bytes) : Prop :=
  ∀ pk sig, hexDecode kf.publicKey = some pk → sign kf.secretKey payload = some sig →
    ∀ pk' payload', verify pk' sig payload' = true → pk' = pk ∧ payload' = payload

omit [Primitives] in
/-- **The channel and the message are read off the signed bytes.** -/
theorem signedPayload_inj {channel channel' : String} {msg msg' : Message} :
    signedPayload channel msg = signedPayload channel' msg' ↔ channel = channel' ∧ msg = msg' := by
  constructor
  · intro h
    -- a channel may hold a line feed, a message does not
    obtain ⟨hchannel, hmsg⟩ := cut_last (Json.newline_not_mem_compact _)
      (Json.newline_not_mem_compact _) h
    exact ⟨utf8_injective hchannel, Message.toJson_injective (Json.compact_injective hmsg)⟩
  · rintro ⟨rfl, rfl⟩
    rfl

/-- What verification asks of an envelope. -/
theorem Envelope.verify_ok {env : Envelope} :
    env.verify = .ok () ↔ env.ts = env.msg.ts ∧ env.id = env.msg.id ∧
      ∃ pk sig, hexDecode env.sender = some pk ∧ pk.length = 32 ∧ hexDecode env.sig = some sig ∧
        sig.length = 64 ∧
        Primitives.verify pk sig (signedPayload env.channel env.msg) = true := by
  rw [Envelope.verify_ok_iff]
  refine and_congr_right fun _ => and_congr_right fun _ => ?_
  simp only [verifyBytes, bind_eq_ok, bailIf_eq_ok, orBail_eq_ok]
  constructor
  · rintro ⟨pk, hpk, _, hpklen, sig, hsig, _, hsiglen, hverify⟩
    exact ⟨pk, sig, hpk, not_not.1 hpklen, hsig, not_not.1 hsiglen, by simpa using hverify⟩
  · rintro ⟨pk, sig, hpk, hpklen, hsig, hsiglen, hverify⟩
    exact ⟨pk, hpk, (), not_not.2 hpklen, sig, hsig, (), not_not.2 hsiglen, by simp [hverify]⟩

/-- What `Envelope::sign` makes. -/
theorem Envelope.sign_ok {kf : KeypairFile} {channel : String} {msg : Message} {env : Envelope} :
    Envelope.sign kf channel msg = .ok env ↔
      ∃ sig, Primitives.sign kf.secretKey (signedPayload channel msg) = some sig ∧
        env = { id := msg.id, channel, sender := kf.publicKey, fromAlias := kf.keyAlias,
                ts := msg.ts, sig := hexEncode sig, msg } := by
  simp only [Envelope.sign, KeypairFile.signBytes, bind_eq_ok, orBail_eq_ok, pure_eq_ok]
  constructor
  · rintro ⟨_, ⟨sig, hsig, rfl⟩, rfl⟩
    exact ⟨sig, hsig, rfl⟩
  · rintro ⟨sig, hsig, rfl⟩
    exact ⟨_, ⟨sig, hsig, rfl⟩, rfl⟩

/-- **A signed envelope verifies**, also under another alias, and with its
author's key spelled in another case. -/
theorem verify_of_sign {kf : KeypairFile} (hkf : kf.Matches) {channel : String} {msg : Message}
    {env : Envelope} (hsign : Envelope.sign kf channel msg = .ok env) {sender : String}
    (fromAlias : Option String) (hsender : hexDecode sender = hexDecode env.sender) :
    ({ env with sender, fromAlias } : Envelope).verify = .ok () := by
  obtain ⟨pk, hpk, hpklen, hsigns⟩ := hkf
  obtain ⟨sig, hsig, hsiglen, hverify⟩ := hsigns (signedPayload channel msg)
  obtain ⟨sig', hsig', rfl⟩ := Envelope.sign_ok.1 hsign
  cases hsig.symm.trans hsig'
  exact Envelope.verify_ok.2 ⟨rfl, rfl, pk, sig, hsender.trans hpk, hpklen,
    hexDecode_hexEncode sig, hsiglen, hverify⟩

/-- **Nothing else carries its signature.** -/
theorem eq_of_verify {kf : KeypairFile} {channel : String} {msg : Message}
    (hbinds : SignatureBinds kf (signedPayload channel msg)) (hkf : kf.Matches) {env env' : Envelope}
    (hsign : Envelope.sign kf channel msg = .ok env) (hsame : env'.sig = env.sig)
    (hverify : env'.verify = .ok ()) :
    hexDecode env'.sender = hexDecode env.sender ∧
      env' = { env with sender := env'.sender, fromAlias := env'.fromAlias } := by
  obtain ⟨pk, hpk, -, -⟩ := hkf
  obtain ⟨sig, hsig, rfl⟩ := Envelope.sign_ok.1 hsign
  obtain ⟨hts, hid, pk', sig', hpk', -, hsig', -, hverify'⟩ := Envelope.verify_ok.1 hverify
  have hbytes : sig = sig' := by
    rw [hsame, hexDecode_hexEncode, Option.some.injEq] at hsig'
    exact hsig'
  subst hbytes
  obtain ⟨rfl, hpayload⟩ := hbinds pk _ hpk hsig pk' _ hverify'
  obtain ⟨hchannel, hmsg⟩ := signedPayload_inj.1 hpayload
  refine ⟨hpk'.trans hpk.symm, ?_⟩
  obtain ⟨id, channel', sender, fromAlias, ts, sig'', msg'⟩ := env'
  simp only at hts hid hchannel hmsg hsame
  subst hchannel hmsg hts hid hsame
  rfl

/-- **What a signature fixes**: the envelope that a key pair signs
verifies, and an envelope that carries its signature verifies exactly if
it is that envelope, but for its alias and for the case in which its
author's key is spelled. -/
theorem envelope_fixed_by_signature (kf : KeypairFile) (hkf : kf.Matches) (channel : String)
    (msg : Message) (hbinds : SignatureBinds kf (signedPayload channel msg)) :
    ∃ env, Envelope.sign kf channel msg = .ok env ∧ env.verify = .ok () ∧
      ∀ env' : Envelope, env'.sig = env.sig →
        (env'.verify = .ok () ↔ ∃ sender fromAlias,
          hexDecode sender = hexDecode env.sender ∧ env' = { env with sender, fromAlias }) := by
  have hkf' := hkf
  obtain ⟨pk, hpk, hpklen, hsigns⟩ := hkf'
  obtain ⟨sig, hsig, -, -⟩ := hsigns (signedPayload channel msg)
  have hsign := Envelope.sign_ok.2 ⟨sig, hsig, rfl⟩
  refine ⟨_, hsign, verify_of_sign hkf hsign _ rfl, fun env' hsame => ⟨fun hverify => ?_, ?_⟩⟩
  · obtain ⟨hsender, heq⟩ := eq_of_verify hbinds hkf hsign hsame hverify
    exact ⟨env'.sender, env'.fromAlias, hsender, heq⟩
  · rintro ⟨sender, fromAlias, hsender, rfl⟩
    exact verify_of_sign hkf hsign fromAlias hsender

end Tampering

/-! ## An alias that nobody signed -/

section Alias

open Simulated

/-- A message, and what is signed of it. -/
def notice : Message where
  ts := 0
  type := .post
  title := none
  tags := []
  refs := []
  body := .text "notice"

/-- What its signature covers. -/
def noticePayload : Bytes := signedPayload general.fullName notice

/-- Signatures under which the notice's is its author's alone. -/
def noticeSignature (publicKey payload : Bytes) : Bytes :=
  if publicKey = List.replicate 32 1 ∧ payload = noticePayload then List.replicate 64 1
  else List.replicate 64 0

/-- The simulated libraries with these signatures. -/
@[reducible] noncomputable def noticed : Primitives where
  __ := simulated
  verify publicKey sig payload := sig == noticeSignature publicKey payload
  sign secretKey payload :=
    (hexDecode secretKey).map fun pair => noticeSignature (pair.drop 32) payload

attribute [local instance] noticed

theorem matches_noticed : (identity 1).Matches := by
  refine ⟨List.replicate 32 1, hexDecode_hexEncode _, by simp, fun payload => ?_⟩
  refine ⟨noticeSignature (List.replicate 32 1) payload, ?_, ?_, beq_self_eq_true _⟩
  · change (hexDecode (hexEncode _)).map _ = _
    rw [hexDecode_hexEncode]
    simp
  · unfold noticeSignature
    split <;> simp

theorem signatureBinds_noticed : SignatureBinds (identity 1) noticePayload := by
  intro pk sig hpk hsig pk' payload' hverify
  have hpk : pk = List.replicate 32 1 := by
    change hexDecode (hexEncode _) = _ at hpk
    rw [hexDecode_hexEncode, Option.some.injEq] at hpk
    exact hpk.symm
  have hsig : sig = List.replicate 64 1 := by
    change (hexDecode (hexEncode _)).map _ = _ at hsig
    rw [hexDecode_hexEncode] at hsig
    simpa [noticeSignature] using hsig.symm
  have hverify : sig = noticeSignature pk' payload' := beq_iff_eq.1 hverify
  rw [hsig, noticeSignature] at hverify
  subst hpk
  split at hverify
  · assumption
  · exact absurd hverify (by decide)

/-- The law for the notice. -/
theorem notice_fixed_by_signature :
    ∃ env, Envelope.sign (identity 1) general.fullName notice = .ok env ∧ env.verify = .ok () ∧
      ∀ env' : Envelope, env'.sig = env.sig →
        (env'.verify = .ok () ↔ ∃ sender fromAlias,
          hexDecode sender = hexDecode env.sender ∧ env' = { env with sender, fromAlias }) :=
  envelope_fixed_by_signature (identity 1) matches_noticed general.fullName notice
    signatureBinds_noticed

/-- **The alias may be altered**: under libraries whose signature of the
notice binds, the notice under another alias carries its signature,
verifies, and is another envelope. -/
theorem alias_altered_in_transit :
    (identity 1).Matches ∧ SignatureBinds (identity 1) noticePayload ∧
      ∃ env env' : Envelope, Envelope.sign (identity 1) general.fullName notice = .ok env ∧
        env'.sig = env.sig ∧ env'.verify = .ok () ∧ env' ≠ env := by
  refine ⟨matches_noticed, signatureBinds_noticed, ?_⟩
  obtain ⟨pk, hpk, hpklen, hsigns⟩ := matches_noticed
  obtain ⟨sig, hsig, -, -⟩ := hsigns noticePayload
  obtain ⟨env, hsign, halias⟩ : ∃ env, Envelope.sign (identity 1) general.fullName notice = .ok env ∧
      env.fromAlias = none := ⟨_, Envelope.sign_ok.2 ⟨sig, hsig, rfl⟩, rfl⟩
  refine ⟨env, { env with fromAlias := some "someone else" }, hsign, rfl,
    verify_of_sign matches_noticed hsign _ rfl, fun h => ?_⟩
  rw [← h] at halias
  cases halias

end Alias

end Embernet
