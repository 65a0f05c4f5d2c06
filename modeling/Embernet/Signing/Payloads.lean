import Embernet.Lib.Lines
import Embernet.Model.Frames
/-!
# Payloads — what one key signs, told apart

An identity signs messages, policy and moderation events, key offers, and
the three texts of authentication with one key. Every payload begins with
a line: a label of its kind, or for a message the name of its channel,
which may be the label of another kind. What follows the line tells the
kinds apart then: the first member of a JSON object, or that there is a
further line.
-/

set_option autoImplicit false

namespace Embernet

/-- The hexadecimal text of 32 bytes. -/
structure HexKey where
  text : String
  valid : ∃ b, hexDecode text = some b ∧ b.length = 32

theorem HexKey.ext_text {a b : HexKey} (h : a.text = b.text) : a = b := by
  cases a
  cases b
  cases h
  rfl

theorem HexKey.oneLine (key : HexKey) : OneLine key.text := by
  obtain ⟨b, hb, -⟩ := key.valid
  exact oneLine_of_hexDecode hb

/-- What a challenge is for. -/
inductive ChallengeTarget
  | sync
  | status
  deriving DecidableEq

/-- The path of the target, as the challenge signs it. -/
def ChallengeTarget.path : ChallengeTarget → String
  | .sync => "/sync"
  | .status => "/status"

/-- What an identity signs, by kind, with the fields the code admits. -/
inductive Signed
  | envelope (channel : ChannelRef) (msg : Message)
  | policyEvent (channel actor : String) (ts : Int64) (previous : Option String)
      (action : PolicyAction)
  | moderationEvent (channel actor : String) (ts : Int64) (previous : Option String)
      (policyHead : String) (action : ModerationAction)
  | keyOffer (channel keyId sender recipient nonce ciphertext : String)
  | syncAuth (timestamp : Int64) (channel : ChannelRef) (nonce responder : HexKey)
  | discoveryAuth (timestamp : Int64) (nonce responder : HexKey)
  | responderChallenge (target : ChallengeTarget) (nonce responder : HexKey) (expires : Int64)

namespace Signed

/-- The bytes that are signed. -/
def bytes : Signed → Bytes
  | envelope channel msg => signedPayload channel.fullName msg
  | policyEvent channel actor ts previous action =>
    utf8 "embernet-policy-v1\n" ++ (policyEventPayload channel actor ts previous action).compact
  | moderationEvent channel actor ts previous policyHead action =>
    utf8 "embernet-moderation-v1\n" ++
      (moderationEventPayload channel actor ts previous policyHead action).compact
  | keyOffer channel keyId sender recipient nonce ciphertext =>
    offerSigned channel keyId sender recipient nonce ciphertext
  | syncAuth timestamp channel nonce responder =>
    syncAuthPayload timestamp channel.fullName nonce.text responder.text
  | discoveryAuth timestamp nonce responder =>
    discoveryAuthPayload timestamp nonce.text responder.text
  | responderChallenge target nonce responder expires =>
    responderChallengePayload target.path nonce.text responder.text expires

/-! ## The first line, and the rest -/

/-- The first line. -/
def label : Signed → String
  | envelope channel _ => channel.fullName
  | policyEvent .. => "embernet-policy-v1"
  | moderationEvent .. => "embernet-moderation-v1"
  | keyOffer .. => "embernet-key-offer-signature-v1"
  | syncAuth .. => "embernet-sync-auth-v2"
  | discoveryAuth .. => "embernet-discovery-v2"
  | responderChallenge .. => "embernet-responder-challenge-v1"

/-- The rest: one JSON object, or four lines. -/
def content : Signed → Json ⊕ List String
  | envelope _ msg => .inl msg.toJson
  | policyEvent channel actor ts previous action =>
    .inl (policyEventPayload channel actor ts previous action)
  | moderationEvent channel actor ts previous policyHead action =>
    .inl (moderationEventPayload channel actor ts previous policyHead action)
  | keyOffer channel keyId sender recipient nonce ciphertext =>
    .inl (keyOfferPayload channel keyId sender recipient nonce ciphertext)
  | syncAuth timestamp channel nonce responder =>
    .inr [toString timestamp.toInt, channel.fullName, nonce.text, responder.text]
  | discoveryAuth timestamp nonce responder =>
    .inr [toString timestamp.toInt, "/status", nonce.text, responder.text]
  | responderChallenge target nonce responder expires =>
    .inr [target.path, nonce.text, responder.text, toString expires.toInt]

theorem oneLine_fullName (channel : ChannelRef) : OneLine channel.fullName := by
  intro hmem
  have hvalid := channel.valid
  simp only [validChannel, Bool.and_eq_true, List.all_eq_true] at hvalid
  exact absurd (hvalid.1.1.1.1 '\n' hmem) (by decide)

theorem oneLine_label (p : Signed) : OneLine p.label := by
  cases p with
  | envelope channel => exact oneLine_fullName channel
  | policyEvent => exact (by decide : OneLine "embernet-policy-v1")
  | moderationEvent => exact (by decide : OneLine "embernet-moderation-v1")
  | keyOffer => exact (by decide : OneLine "embernet-key-offer-signature-v1")
  | syncAuth => exact (by decide : OneLine "embernet-sync-auth-v2")
  | discoveryAuth => exact (by decide : OneLine "embernet-discovery-v2")
  | responderChallenge => exact (by decide : OneLine "embernet-responder-challenge-v1")

/-- **Every payload is its first line and the rest.** -/
theorem bytes_eq (p : Signed) :
    p.bytes = utf8 p.label ++ 0x0a :: Sum.elim Json.compact (fun ls => utf8 (joinLines ls)) p.content := by
  have hnewline : (0x0a : UInt8) :: [] = utf8 "\n" := by decide
  cases p with
  | envelope => rfl
  | policyEvent => rfl
  | moderationEvent => rfl
  | keyOffer => rfl
  | syncAuth =>
    rw [← List.singleton_append, hnewline]
    simp only [label, content, Sum.elim_inr, joinLines, ← utf8_append, ← String.append_assoc]
    rfl
  | discoveryAuth timestamp nonce responder =>
    have hpath : "\n/status\n" = "\n" ++ "/status" ++ "\n" := by decide
    rw [← List.singleton_append, hnewline]
    simp only [label, content, Sum.elim_inr, joinLines, ← utf8_append]
    change utf8 ("embernet-discovery-v2\n" ++ toString timestamp.toInt ++ "\n/status\n" ++
      nonce.text ++ "\n" ++ responder.text) = _
    rw [hpath]
    simp only [← String.append_assoc]
    rfl
  | responderChallenge =>
    rw [← List.singleton_append, hnewline]
    simp only [label, content, Sum.elim_inr, joinLines, ← utf8_append, ← String.append_assoc]
    rfl

/-- The four lines are lines. -/
theorem lines_content {p : Signed} {ls : List String} (h : p.content = .inr ls) :
    ls.length = 4 ∧ ∀ s ∈ ls, OneLine s := by
  cases p with
  | syncAuth timestamp channel nonce responder =>
    cases h
    simpa using ⟨oneLine_int _, oneLine_fullName channel, nonce.oneLine, responder.oneLine⟩
  | discoveryAuth timestamp nonce responder =>
    cases h
    simpa using ⟨oneLine_int _, (by decide : OneLine "/status"), nonce.oneLine, responder.oneLine⟩
  | responderChallenge target nonce responder expires =>
    cases h
    have htarget : OneLine target.path := by cases target <;> decide
    simpa using ⟨htarget, nonce.oneLine, responder.oneLine, oneLine_int _⟩
  | envelope => cases h
  | policyEvent => cases h
  | moderationEvent => cases h
  | keyOffer => cases h

/-- A payload of two kinds of rest would be one line and more. -/
theorem compact_ne_lines {x : Json} {p : Signed} {ls : List String} (h : p.content = .inr ls) :
    x.compact ≠ utf8 (joinLines ls) := by
  intro heq
  obtain ⟨hlength, -⟩ := lines_content h
  match ls, hlength with
  | s :: t :: rest, _ =>
    have hmem := newline_mem_utf8 (newline_mem_joinLines s t rest)
    rw [← heq] at hmem
    exact Json.newline_not_mem_compact x hmem

/-- **The bytes determine the first line and the rest.** -/
theorem label_content_of_bytes {p q : Signed} (h : p.bytes = q.bytes) :
    p.label = q.label ∧ p.content = q.content := by
  rw [bytes_eq, bytes_eq] at h
  obtain ⟨hlabel, hrest⟩ := cut_first (newline_not_mem_utf8 p.oneLine_label)
    (newline_not_mem_utf8 q.oneLine_label) h
  refine ⟨utf8_injective hlabel, ?_⟩
  cases hp : p.content with
  | inl x =>
    cases hq : q.content with
    | inl y =>
      rw [hp, hq] at hrest
      exact congrArg Sum.inl (Json.compact_injective hrest)
    | inr ls =>
      rw [hp, hq] at hrest
      exact absurd hrest (compact_ne_lines hq)
  | inr ls =>
    cases hq : q.content with
    | inl y =>
      rw [hp, hq] at hrest
      exact absurd hrest.symm (compact_ne_lines hp)
    | inr ls' =>
      rw [hp, hq] at hrest
      obtain ⟨hlength, hlines⟩ := lines_content hp
      obtain ⟨hlength', hlines'⟩ := lines_content hq
      exact congrArg Sum.inr (joinLines_inj hlines hlines' (hlength.trans hlength'.symm)
        (utf8_injective hrest))

/-- Payloads of one text are of one kind, with the same fields. -/
theorem eq_of_bytes {p q : Signed} (h : p.bytes = q.bytes) : p = q := by
  obtain ⟨hlabel, hcontent⟩ := label_content_of_bytes h
  have hstamp : ∀ s t : Int64, toString s.toInt = toString t.toInt → s = t := fun s t hst =>
    Int64.toInt.inj (toString_int_injective hst)
  cases p with
  | envelope channel msg =>
    cases q with
    | envelope channel' msg' =>
      obtain ⟨name, _⟩ := channel
      obtain ⟨name', _⟩ := channel'
      cases (hlabel : name = name')
      rw [Message.toJson_injective (Sum.inl.inj hcontent)]
    -- a message begins with its clock, and an event or an offer with its channel
    | _ => simp [content, Message.toJson, policyEventPayload, moderationEventPayload,
        keyOfferPayload] at hcontent
  | policyEvent =>
    cases q with
    | policyEvent =>
      obtain ⟨rfl, rfl, rfl, rfl, rfl⟩ := policyEventPayload_inj.1 (Sum.inl.inj hcontent)
      rfl
    | envelope => simp [content, Message.toJson, policyEventPayload] at hcontent
    | _ => simp [label] at hlabel
  | moderationEvent =>
    cases q with
    | moderationEvent =>
      obtain ⟨rfl, rfl, rfl, rfl, rfl, rfl⟩ :=
        moderationEventPayload_inj.1 (Sum.inl.inj hcontent)
      rfl
    | envelope => simp [content, Message.toJson, moderationEventPayload] at hcontent
    | _ => simp [label] at hlabel
  | keyOffer =>
    cases q with
    | keyOffer => simpa [content, keyOfferPayload] using hcontent
    | envelope => simp [content, Message.toJson, keyOfferPayload] at hcontent
    | _ => simp [label] at hlabel
  | syncAuth timestamp channel nonce responder =>
    cases q with
    | syncAuth timestamp' channel' nonce' responder' =>
      simp only [content, Sum.inr.injEq, List.cons.injEq, and_true] at hcontent
      obtain ⟨hts, hchannel, hnonce, hresponder⟩ := hcontent
      obtain ⟨name, _⟩ := channel
      obtain ⟨name', _⟩ := channel'
      cases (hchannel : name = name')
      rw [hstamp _ _ hts, HexKey.ext_text hnonce, HexKey.ext_text hresponder]
    | envelope => simp [content] at hcontent
    | _ => simp [label] at hlabel
  | discoveryAuth timestamp nonce responder =>
    cases q with
    | discoveryAuth timestamp' nonce' responder' =>
      simp only [content, Sum.inr.injEq, List.cons.injEq, and_true, true_and] at hcontent
      obtain ⟨hts, hnonce, hresponder⟩ := hcontent
      rw [hstamp _ _ hts, HexKey.ext_text hnonce, HexKey.ext_text hresponder]
    | envelope => simp [content] at hcontent
    | _ => simp [label] at hlabel
  | responderChallenge target nonce responder expires =>
    cases q with
    | responderChallenge target' nonce' responder' expires' =>
      simp only [content, Sum.inr.injEq, List.cons.injEq, and_true] at hcontent
      obtain ⟨htarget, hnonce, hresponder, hts⟩ := hcontent
      have hsame : target = target' := by
        cases target <;> cases target' <;> simp [ChallengeTarget.path] at htarget ⊢
      rw [hsame, hstamp _ _ hts, HexKey.ext_text hnonce, HexKey.ext_text hresponder]
    | envelope => simp [content] at hcontent
    | _ => simp [label] at hlabel

/-- **One text is one payload**: what an identity signs is an injective
function of its kind and its fields, also where a channel bears the label
of another kind. -/
theorem signed_payloads_separated (p q : Signed) : p.bytes = q.bytes ↔ p = q :=
  ⟨eq_of_bytes, congrArg bytes⟩

end Signed

/-! ## Where the program signs -/

section Signing

variable [Primitives] {kf : KeypairFile}

theorem signBytes_of_sign {chan : ChannelRef} {msg : Message} {env : Envelope}
    (h : Envelope.sign kf chan.fullName msg = .ok env) :
    kf.signBytes (Signed.envelope chan msg).bytes = .ok env.sig := by
  obtain ⟨sig, hsig, henv⟩ := bind_eq_ok.1 h
  cases henv
  exact hsig

theorem signBytes_of_signPolicyEvent {chan : ChannelRef} {now : Int64} {previous : Option String}
    {action : PolicyAction} {e : PolicyEvent}
    (h : signPolicyEvent chan kf now previous action = .ok e) :
    kf.signBytes (Signed.policyEvent e.channel e.actor e.ts e.previous e.action).bytes =
      .ok e.sig := by
  obtain ⟨sig, hsig, he⟩ := bind_eq_ok.1 h
  cases he
  exact hsig

theorem signBytes_of_signModerationEvent {chan : ChannelRef} {now : Int64}
    {previous : Option String} {policyHead : String} {action : ModerationAction}
    {e : ModerationEvent}
    (h : signModerationEvent chan kf now previous policyHead action = .ok e) :
    kf.signBytes (Signed.moderationEvent e.channel e.actor e.ts e.previous e.policyHead
      e.action).bytes = .ok e.sig := by
  obtain ⟨sig, hsig, he⟩ := bind_eq_ok.1 h
  cases he
  exact hsig

theorem signBytes_of_makeKeyOffer {channel recipient : String} {nonce : Bytes} {key : ChannelKey}
    {o : KeyOffer} (h : makeKeyOffer channel kf recipient nonce key = .ok o) :
    kf.signBytes (Signed.keyOffer o.channel o.keyId o.sender o.recipient o.nonce
      o.ciphertext).bytes = .ok o.sig := by
  obtain ⟨raw, -, h⟩ := bind_eq_ok.1 h
  obtain ⟨wrapKey, -, h⟩ := bind_eq_ok.1 h
  obtain ⟨sig, hsig, ho⟩ := bind_eq_ok.1 h
  cases ho
  exact hsig

end Signing

end Embernet
