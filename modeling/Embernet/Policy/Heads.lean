import Embernet.Lib.HashChain
import Embernet.Model.Moderation
/-!
# Heads — what a policy event's id commits to

A derived history is a hash chain. Where BLAKE3 has no collision on the
payloads involved, no id occurs twice in it, and a head that two
histories share fixes everything before it: the ids, the payloads, and so
the policy.
-/

set_option autoImplicit false

namespace Embernet

open Primitives HashChain

variable [Primitives] {chan : ChannelRef} {P Q : List PolicyEvent} {policy : ChannelPolicy}

/-- The bytes that the ids of a history hash. -/
def policyPayloads (P : List PolicyEvent) : Set Bytes :=
  {b | ∃ e ∈ P, b = e.payload.compact}

omit [Primitives] in
theorem policyPayloads_append_left : policyPayloads P ⊆ policyPayloads (P ++ Q) :=
  fun _ ⟨e, he, hb⟩ => ⟨e, List.mem_append_left Q he, hb⟩

theorem chained_replay {s t : PolicyCursor}
    (h : Replay.replay (derivePolicyStep chan) s P = .ok t) :
    Chained PolicyEvent.id PolicyEvent.previous s.previous P := by
  induction P generalizing s with
  | nil => trivial
  | cons e P ih =>
    obtain ⟨u, hu, hrest⟩ := Replay.replay_cons_ok.1 h
    obtain ⟨-, hprev, -, -, -, hcursor⟩ := derivePolicyStep_ok.1 hu
    exact ⟨hprev, hcursor ▸ ih hrest⟩

/-- A history that derives is a chain from nothing. -/
theorem chained_of_derivePolicy (h : derivePolicy chan P = .ok policy) :
    Chained PolicyEvent.id PolicyEvent.previous none P := by
  obtain ⟨s, hs, -⟩ := derivePolicy_ok.1 h
  exact chained_replay hs

/-- **Two events of one id have one payload.** -/
theorem payload_eq_of_id_eq {U : Set Bytes} (hU : Set.InjOn blake3 U)
    (hP : derivePolicy chan P = .ok policy) {policy' : ChannelPolicy}
    (hQ : derivePolicy chan Q = .ok policy') (hPU : policyPayloads P ⊆ U)
    (hQU : policyPayloads Q ⊆ U) {a b : PolicyEvent} (ha : a ∈ P) (hb : b ∈ Q)
    (h : a.id = b.id) : a.payload = b.payload := by
  refine Json.compact_injective (hashHex_inj_on hU (hPU ⟨a, ha, rfl⟩) (hQU ⟨b, hb, rfl⟩) ?_)
  rw [(mem_of_derivePolicy hP ha).2.1, (mem_of_derivePolicy hQ hb).2.1] at h
  exact h

omit [Primitives] in
theorem fields_of_payload_eq {a b : PolicyEvent} (h : a.payload = b.payload) :
    a.actor = b.actor ∧ a.previous = b.previous ∧ a.action = b.action := by
  obtain ⟨-, hactor, -, hprev, haction⟩ := policyEventPayload_inj.1 h
  exact ⟨hactor, hprev, haction⟩

/-- No id occurs twice. -/
theorem nodup_policy_ids (hU : Set.InjOn blake3 (policyPayloads P))
    (hP : derivePolicy chan P = .ok policy) : (P.map PolicyEvent.id).Nodup :=
  nodup_id (chained_of_derivePolicy hP) fun _ ha _ hb hab =>
    (fields_of_payload_eq
      (payload_eq_of_id_eq hU hP hP subset_rfl subset_rfl ha hb hab)).2.1

/-- So the newest head stands at the last position. -/
theorem policyPosition_getLast (hU : Set.InjOn blake3 (policyPayloads P))
    (hP : derivePolicy chan P = .ok policy) {e : PolicyEvent} (he : P.getLast? = some e) :
    policyPosition P e.id = some (P.length - 1) := by
  obtain ⟨init, rfl⟩ := List.getLast?_eq_some_iff.1 he
  have hnodup := nodup_policy_ids hU hP
  rw [List.map_append, List.nodup_append] at hnodup
  have hnone : List.findIdx? (·.id == e.id) init = none := by
    rw [List.findIdx?_eq_none_iff]
    intro a ha
    rw [beq_eq_false_iff_ne]
    exact hnodup.2.2 _ (List.mem_map_of_mem ha) _ (by simp)
  rw [policyPosition, List.findIdx?_append, hnone]
  simp

/-! ## Histories that share a head -/

/-- Two events that a history may exchange. -/
def PolicyEvent.Agrees (a b : PolicyEvent) : Prop := a.id = b.id ∧ a.payload = b.payload

theorem derivePolicyStep_agrees (chan : ChannelRef) ⦃s : PolicyCursor⦄ ⦃a b : PolicyEvent⦄
    ⦃t t' : PolicyCursor⦄ (hab : a.Agrees b)
    (ha : derivePolicyStep chan s a = .ok t) (hb : derivePolicyStep chan s b = .ok t') : t = t' := by
  obtain ⟨-, -, -, -, happly, hprev⟩ := derivePolicyStep_ok.1 ha
  obtain ⟨-, -, -, -, happly', hprev'⟩ := derivePolicyStep_ok.1 hb
  obtain ⟨hactor, -, haction⟩ := fields_of_payload_eq hab.2
  rw [hactor, haction, happly'] at happly
  obtain ⟨policy, previous⟩ := t
  obtain ⟨policy', previous'⟩ := t'
  simp only at hprev hprev' happly
  rw [hprev, hprev', hab.1, Except.ok.inj happly]

/-- Events of one id agree. -/
theorem agrees_of_ids {U : Set Bytes} (hU : Set.InjOn blake3 U)
    (hP : derivePolicy chan P = .ok policy) {policy' : ChannelPolicy}
    (hQ : derivePolicy chan Q = .ok policy') (hPU : policyPayloads P ⊆ U)
    (hQU : policyPayloads Q ⊆ U) {xs ys : List PolicyEvent} (hx : xs ⊆ P) (hy : ys ⊆ Q)
    (h : xs.map PolicyEvent.id = ys.map PolicyEvent.id) :
    List.Forall₂ PolicyEvent.Agrees xs ys := by
  rw [← List.forall₂_eq_eq_eq, List.forall₂_map_left_iff, List.forall₂_map_right_iff,
    List.forall₂_iff_zip] at h
  refine List.forall₂_iff_zip.2 ⟨h.1, fun {a b} hab => ⟨h.2 hab, ?_⟩⟩
  obtain ⟨ha, hb⟩ := List.of_mem_zip hab
  exact payload_eq_of_id_eq hU hP hQ hPU hQU (hx ha) (hy hb) (h.2 hab)

/-- **A head that two histories share fixes the policy there.** -/
theorem CitedPolicy.shared {U : Set Bytes} (hU : Set.InjOn blake3 U)
    (hP : derivePolicy chan P = .ok policy) {policy' : ChannelPolicy}
    (hQ : derivePolicy chan Q = .ok policy') (hPU : policyPayloads P ⊆ U)
    (hQU : policyPayloads Q ⊆ U) {head : String} {position : ℕ} {cited : ChannelPolicy}
    (hcited : CitedPolicy chan P head position cited) (hmem : head ∈ Q.map PolicyEvent.id) :
    ∃ position', CitedPolicy chan Q head position' cited := by
  obtain ⟨hposition, hpolicy⟩ := hcited
  obtain ⟨hi, hid, -⟩ := List.findIdx?_eq_some_iff_getElem.1 hposition
  obtain ⟨position', hposition'⟩ : ∃ j, policyPosition Q head = some j := by
    rw [← Option.isSome_iff_exists, policyPosition, List.findIdx?_isSome, List.any_eq_true]
    obtain ⟨e, he, rfl⟩ := List.mem_map.1 hmem
    exact ⟨e, he, beq_self_eq_true _⟩
  obtain ⟨hj, hid', -⟩ := List.findIdx?_eq_some_iff_getElem.1 hposition'
  obtain ⟨rfl, hids⟩ := eq_of_id_eq (chained_of_derivePolicy hP) (chained_of_derivePolicy hQ)
    (fun a ha b hb hab =>
      (fields_of_payload_eq (payload_eq_of_id_eq hU hP hQ hPU hQU ha hb hab)).2.1) hi hj
    (by rw [beq_iff_eq.1 hid, beq_iff_eq.1 hid'])
  obtain ⟨cited', hpolicy'⟩ := exists_derivePolicy_of_prefix (List.take_prefix (position + 1) Q) hQ
  obtain ⟨s, hs, rfl⟩ := derivePolicy_ok.1 hpolicy
  obtain ⟨t, ht, rfl⟩ := derivePolicy_ok.1 hpolicy'
  have hagree := agrees_of_ids hU hP hQ hPU hQU (List.take_subset _ _) (List.take_subset _ _) hids
  rw [Replay.replay_congr (derivePolicyStep_agrees chan) hagree hs ht]
  exact ⟨position, hposition', hpolicy'⟩

/-- **A history may be taken in behind another** whose ids it begins
with. -/
theorem derivePolicy_exchange {U : Set Bytes} (hU : Set.InjOn blake3 U)
    (hP : derivePolicy chan P = .ok policy) {policy' : ChannelPolicy}
    (hQ : derivePolicy chan Q = .ok policy') (hPU : policyPayloads P ⊆ U)
    (hQU : policyPayloads Q ⊆ U)
    (h : P.map PolicyEvent.id = (Q.take P.length).map PolicyEvent.id) :
    derivePolicy chan (P ++ Q.drop P.length) = .ok policy' := by
  obtain ⟨s, hs, -⟩ := derivePolicy_ok.1 hP
  obtain ⟨t, ht, rfl⟩ := derivePolicy_ok.1 hQ
  have hagree := agrees_of_ids hU hP hQ hPU hQU (List.Subset.refl _) (List.take_subset _ _) h
  exact derivePolicy_ok.2 ⟨t, Replay.replay_exchange (derivePolicyStep_agrees chan)
    hagree hs ht, rfl⟩

end Embernet
