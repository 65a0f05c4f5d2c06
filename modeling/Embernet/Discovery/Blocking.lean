import Embernet.Model.AutoSync
import Embernet.Store.Isolation
/-!
# Blocking — what one channel's failure stops

`list_readable_channels` collects what it reads of every channel, and the
loop of `sync_all_from_peer` leaves with the first error. So a policy that
cannot be read takes every channel off the list, and `/status` answers
with an empty one; and a session that fails keeps the channels after it
from being synchronized. Each channel is independent of the others exactly
where there is no such policy, and where those that fail come last.
-/

set_option autoImplicit false

namespace Embernet

section Blocking

variable [Primitives] {d : Datadir} {requester : Option String} {name : String}

/-! ## The list of channels -/

/-- The policy of a channel can be read. -/
def PolicyReadable (d : Datadir) (name : String) : Prop :=
  ∃ chan policy, ChannelRef.parse name = .ok chan ∧ readChannelPolicy chan d = .ok policy

/-- A channel that is there and that the requester may read. -/
def ReadableBy (d : Datadir) (requester : Option String) (name : String) : Prop :=
  name ∈ listChannels d ∧ ∃ chan policy, ChannelRef.parse name = .ok chan ∧
    readChannelPolicy chan d = .ok policy ∧ listedFor policy requester = true

/-- **The list is read where every policy is.** -/
theorem exists_listReadableChannels_iff :
    (∃ names, listReadableChannels requester d = .ok names) ↔
      ∀ name ∈ listChannels d, PolicyReadable d name := by
  rw [listReadableChannels, exists_filterMapM_ok_iff]
  refine forall₂_congr fun name _ => ?_
  constructor
  · rintro ⟨o, ho⟩
    simp only [bind_eq_ok, pure_eq_ok] at ho
    obtain ⟨chan, hchan, policy, hpolicy, -⟩ := ho
    exact ⟨chan, policy, hchan, hpolicy⟩
  · rintro ⟨chan, policy, hchan, hpolicy⟩
    exact ⟨_, bind_eq_ok.2 ⟨chan, hchan, bind_eq_ok.2 ⟨policy, hpolicy, rfl⟩⟩⟩

/-- And it is of the channels that are readable. -/
theorem mem_of_listReadableChannels {names : List String}
    (h : listReadableChannels requester d = .ok names) : name ∈ names ↔ ReadableBy d requester name := by
  rw [mem_of_filterMapM h, ReadableBy]
  constructor
  · rintro ⟨name', hname', ho⟩
    simp only [bind_eq_ok, pure_eq_ok] at ho
    obtain ⟨chan, hchan, policy, hpolicy, hlisted⟩ := ho
    split at hlisted
    · cases hlisted
      exact ⟨hname', chan, policy, hchan, hpolicy, ‹_›⟩
    · cases hlisted
  · rintro ⟨hname, chan, policy, hchan, hpolicy, hlisted⟩
    refine ⟨name, hname, bind_eq_ok.2 ⟨chan, hchan, bind_eq_ok.2 ⟨policy, hpolicy, ?_⟩⟩⟩
    rw [if_pos hlisted]
    rfl

/-- What a response advertises. -/
def Response.advertised : Response PeerStatus → List String
  | .ok status => status.channels
  | .error .. => []

/-- **What `/status` advertises**: the channels that are readable, or
nothing. -/
theorem mem_advertised_iff {headers : DiscoveryHeaders} {now now' : Int64}
    {state state' : AppState}
    (h : discoveryRequester headers now now' state = .ok (requester, state')) :
    name ∈ (statusHandler d headers now now' state).1.advertised ↔
      ReadableBy d requester name ∧ ∀ name ∈ listChannels d, PolicyReadable d name := by
  cases hlist : listReadableChannels requester d with
  | error e =>
    simp only [statusHandler, h, hlist, Response.advertised]
    refine iff_of_false List.not_mem_nil fun ⟨_, hall⟩ => ?_
    obtain ⟨names, hnames⟩ := exists_listReadableChannels_iff.2 hall
    cases hlist.symm.trans hnames
  | ok names =>
    have hall := exists_listReadableChannels_iff.1 ⟨names, hlist⟩
    simp only [statusHandler, h, hlist, Response.advertised]
    exact (mem_of_listReadableChannels hlist).trans (and_iff_left hall).symm

/-! ## The loop over the channels -/

variable {F : Set String} {session : String → StoreM ℕ} {channels ran : List String}

/-- An operation on the store, beside what is noted. -/
def beside {α : Type} (x : StoreM α) : Op (Datadir × List String) Error α := fun s =>
  match x.exec s.1 with
  | (result, d) => (result, d, s.2)

/-- A session, noted when it begins. -/
def noted (session : String → StoreM ℕ) (channel : String) : Op (Datadir × List String) Error ℕ :=
  fun s => (beside (session channel)).exec (s.1, s.2 ++ [channel])

/-- The sessions that `sync_all_from_peer` runs. -/
def sessionsRun (discovered : Except Error (List String)) (session : String → StoreM ℕ)
    (d : Datadir) : List String :=
  ((syncAllFromPeer (liftM discovered) (fun chan => beside (createChannel chan))
    (noted session)).exec (d, [])).2.2

/-- The sessions that fail are those of the channels of `F`. -/
def FailsOn (session : String → StoreM ℕ) (F : Set String) : Prop :=
  ∀ channel d, (∃ e, ((session channel).exec d).1 = .error e) ↔ channel ∈ F

omit [Primitives] in
theorem exists_exec_createChannel (chan : ChannelRef) (d : Datadir) :
    ∃ d', (createChannel chan).exec d = (.ok (), d') := ⟨_, rfl⟩

omit [Primitives] in
theorem ChannelRef.exists_parse (h : validChannel name = true) :
    ∃ chan, ChannelRef.parse name = .ok chan := ⟨⟨name, h⟩, dif_pos h⟩

omit [Primitives] in
/-- **A session is run where none before it fails.** -/
theorem mem_syncChannels_iff (hfails : FailsOn session F)
    (hvalid : ∀ channel ∈ channels, validChannel channel = true) (received : ℕ) :
    name ∈ ((syncChannels (fun chan => beside (createChannel chan)) (noted session) channels
        received).exec (d, ran)).2.2 ↔
      name ∈ ran ∨ ∃ before after, channels = before ++ name :: after ∧ ∀ b ∈ before, b ∉ F := by
  induction channels generalizing d ran received with
  | nil => simp [syncChannels]
  | cons channel channels ih =>
    obtain ⟨hchannel, hvalid⟩ := List.forall_mem_cons.1 hvalid
    obtain ⟨chan, hchan⟩ := ChannelRef.exists_parse hchannel
    obtain ⟨d₁, hcreate⟩ := exists_exec_createChannel chan d
    have hbeside : (beside (createChannel chan)).exec (d, ran) = (.ok (), d₁, ran) := by
      change (match (createChannel chan).exec d with | (result, d) => (result, d, ran)) = _
      rw [hcreate]
    rw [syncChannels, Op.exec_except_bind, hchan]
    simp only
    rw [Op.exec_bind_of_ok hbeside, Op.exec_bind]
    have hnoted : (noted session channel).exec (d₁, ran) =
        (((session channel).exec d₁).1, ((session channel).exec d₁).2, ran ++ [channel]) := rfl
    rw [hnoted]
    rcases hsession : (session channel).exec d₁ with ⟨e | more, d₂⟩
    · -- the loop is left, and the channel was the last
      have hmem : channel ∈ F := (hfails channel d₁).1 ⟨e, by rw [hsession]⟩
      simp only [List.mem_append, List.mem_singleton]
      refine or_congr_right ⟨?_, ?_⟩
      · rintro rfl
        exact ⟨[], channels, rfl, by rintro _ ⟨⟩⟩
      · rintro ⟨before, after, heq, hbefore⟩
        cases before with
        | nil => exact (List.cons.inj heq).1.symm
        | cons b before =>
          obtain ⟨rfl, -⟩ := List.cons.inj heq
          exact absurd hmem (hbefore _ List.mem_cons_self)
    · have hmem : channel ∉ F := fun h => by
        obtain ⟨e, he⟩ := (hfails channel d₁).2 h
        rw [hsession] at he
        cases he
      simp only
      rw [ih hvalid, List.mem_append, List.mem_singleton, or_assoc]
      refine or_congr_right ⟨?_, ?_⟩
      · rintro (rfl | ⟨before, after, rfl, hbefore⟩)
        · exact ⟨[], channels, rfl, by rintro _ ⟨⟩⟩
        · exact ⟨channel :: before, after, rfl, List.forall_mem_cons.2 ⟨hmem, hbefore⟩⟩
      · rintro ⟨before, after, heq, hbefore⟩
        cases before with
        | nil => exact .inl (List.cons.inj heq).1.symm
        | cons b before =>
          obtain ⟨-, heq⟩ := List.cons.inj heq
          exact .inr ⟨before, after, heq, (List.forall_mem_cons.1 hbefore).2⟩

/-! ## What is discovered -/

omit [Primitives] in
/-- The channels are valid and in order, each once. -/
theorem discoveredChannels_ok {status : PeerStatus}
    (h : discoveredChannels status = .ok channels) :
    (∀ channel ∈ channels, validChannel channel = true) ∧ channels.Pairwise (· < ·) := by
  simp only [discoveredChannels, bind_eq_ok, pure_eq_ok] at h
  obtain ⟨_, -, _, -, rfl⟩ := h
  constructor
  · intro channel hchannel
    rw [List.mem_dedup, List.mem_insertionSort, List.mem_filter] at hchannel
    exact hchannel.2
  · have hsorted := (List.pairwise_insertionSort (· ≤ ·) (status.channels.filter validChannel)).sublist
      (List.dedup_sublist _)
    exact (hsorted.and (List.nodup_dedup _)).imp fun ⟨hle, hne⟩ => Std.lt_of_le_of_ne hle hne

omit [Primitives] in
/-- **The sessions that are run** of what was discovered. -/
theorem forall_mem_sessionsRun_iff {status : PeerStatus} (hfails : FailsOn session F)
    (hdiscovered : discoveredChannels status = .ok channels) :
    (∀ channel ∈ channels, channel ∉ F →
        channel ∈ sessionsRun (discoveredChannels status) session d) ↔
      ∀ channel ∈ channels, ∀ other ∈ channels, channel ∈ F → other ∉ F → other < channel := by
  obtain ⟨hvalid, hsorted⟩ := discoveredChannels_ok hdiscovered
  have hrun : ∀ channel, channel ∈ sessionsRun (discoveredChannels status) session d ↔
      ∃ before after, channels = before ++ channel :: after ∧ ∀ b ∈ before, b ∉ F := by
    intro channel
    rw [sessionsRun, syncAllFromPeer, Op.exec_except_bind, hdiscovered]
    simp only
    rw [Op.exec_bind_pure_snd, mem_syncChannels_iff hfails hvalid]
    simp
  constructor
  · intro h channel hchannel other hother hmem hnot
    obtain ⟨before, after, rfl, hbefore⟩ := (hrun other).1 (h other hother hnot)
    rcases List.mem_append.1 hchannel with hchannel | hchannel
    · exact absurd hmem (hbefore channel hchannel)
    · rcases List.mem_cons.1 hchannel with rfl | hchannel
      · exact absurd hmem hnot
      · exact List.rel_of_pairwise_cons (List.pairwise_append.1 hsorted).2.1 hchannel
  · intro h channel hchannel hnot
    obtain ⟨before, after, rfl⟩ := List.append_of_mem hchannel
    refine (hrun channel).2 ⟨before, after, rfl, fun b hb hmem => ?_⟩
    have hlt : b < channel :=
      (List.pairwise_append.1 hsorted).2.2 b hb channel List.mem_cons_self
    exact String.lt_asymm hlt (h b (List.mem_append_left _ hb) channel hchannel hmem hnot)

/-! ## Each channel by itself -/

/-- **When one channel's failure leaves the others alone.** The list is
returned exactly where every policy can be read, and then has every
readable channel; `/status` advertises every readable channel exactly where
every policy can be read, or there is no such channel; and a session is
run for every channel that was discovered and does not fail exactly where
those that do come after them in order. -/
theorem channels_independent_iff (d : Datadir) (requester : Option String) :
    ((∃ names, listReadableChannels requester d = .ok names ∧
        ∀ name, ReadableBy d requester name → name ∈ names) ↔
      ∀ name ∈ listChannels d, PolicyReadable d name) ∧
    (∀ headers now now' state state',
      discoveryRequester headers now now' state = .ok (requester, state') →
      ((∀ name, ReadableBy d requester name →
          name ∈ (statusHandler d headers now now' state).1.advertised) ↔
        (∀ name ∈ listChannels d, PolicyReadable d name) ∨ ∀ name, ¬ ReadableBy d requester name)) ∧
    ∀ status channels session F, FailsOn session F → discoveredChannels status = .ok channels →
      ((∀ channel ∈ channels, channel ∉ F →
          channel ∈ sessionsRun (discoveredChannels status) session d) ↔
        ∀ channel ∈ channels, ∀ other ∈ channels, channel ∈ F → other ∉ F → other < channel) := by
  refine ⟨?_, ?_, fun status channels session F => forall_mem_sessionsRun_iff⟩
  · rw [← exists_listReadableChannels_iff]
    exact ⟨fun ⟨names, hnames, _⟩ => ⟨names, hnames⟩, fun ⟨names, hnames⟩ =>
      ⟨names, hnames, fun _ => (mem_of_listReadableChannels hnames).2⟩⟩
  · intro headers now now' state state' hrequester
    simp only [mem_advertised_iff hrequester]
    by_cases hall : ∀ name ∈ listChannels d, PolicyReadable d name
    · exact iff_of_true (fun name h => ⟨h, hall⟩) (.inl hall)
    · rw [or_iff_right hall]
      exact forall_congr' fun name => ⟨fun h hname => hall (h hname).2, fun h hname => absurd hname h⟩

end Blocking

/-! ### A policy that cannot be read, and a session that fails -/

section Blocked

open Simulated

attribute [local instance] simulated

/-- Another channel than `general`. -/
def side : ChannelRef := ⟨"side", by decide⟩

/-- A node with both, and a policy of the other that cannot be read. -/
def blocked : Datadir :=
  (({} : Datadir).put general.fullName { log := some [] }).put side.fullName
    { log := some [], policyJson := .malformed }

/-- An anonymous request. -/
def anonymous : DiscoveryHeaders := ⟨none, none, none, none⟩

/-- A server with no challenge open. -/
def idle : AppState := { identity := identity 1, discoveryChallenges := ∅ }

/-- A session that fails on one channel. -/
def failing (channel : String) : StoreM ℕ :=
  if channel = "alpha" then bail "policy fork" else pure 0

theorem getElem?_blocked :
    blocked.channels[general.fullName]? = some { log := some [] } ∧
      blocked.channels[side.fullName]? = some { log := some [], policyJson := .malformed } := by
  refine ⟨?_, getElem?_put_self _ _ _⟩
  rw [blocked, getElem?_put_of_ne (by decide), getElem?_put_self]

theorem failsOn_failing : FailsOn failing {"alpha"} := by
  intro channel d
  rw [failing, Set.mem_singleton_iff]
  split
  · exact iff_of_true ⟨_, rfl⟩ ‹_›
  · exact iff_of_false (fun ⟨_, h⟩ => nomatch h) ‹_›

/-- **One policy takes every channel off the list, and one session stops
the rest.** `general` is public and its policy is read, and no list is
returned and nothing advertised; and the session of `beta` does not fail,
and is not run. -/
theorem one_failure_blocks :
    (ReadableBy blocked none general.fullName ∧
      (∀ names, listReadableChannels none blocked ≠ .ok names) ∧
      discoveryRequester anonymous 0 0 idle = .ok (none, idle) ∧
      general.fullName ∉ (statusHandler blocked anonymous 0 0 idle).1.advertised) ∧
    FailsOn failing {"alpha"} ∧
      discoveredChannels ⟨true, ["alpha", "beta"]⟩ = .ok ["alpha", "beta"] ∧
      "beta" ∉ sessionsRun (discoveredChannels ⟨true, ["alpha", "beta"]⟩) failing blocked := by
  have hreadable : ReadableBy blocked none general.fullName :=
    ⟨mem_listChannels.2 ⟨_, getElem?_blocked.1, rfl⟩, general, .default,
      ChannelRef.parse_fullName general, by rw [readChannelPolicy, getElem?_blocked.1]; rfl, rfl⟩
  have hunreadable : ¬ PolicyReadable blocked side.fullName := by
    rintro ⟨chan, policy, hchan, hpolicy⟩
    cases (ChannelRef.parse_fullName side).symm.trans hchan
    rw [readChannelPolicy, getElem?_blocked.2] at hpolicy
    cases hpolicy
  have hall : ¬ ∀ name ∈ listChannels blocked, PolicyReadable blocked name := fun h =>
    hunreadable (h _ (mem_listChannels.2 ⟨_, getElem?_blocked.2, rfl⟩))
  have hanonymous : discoveryRequester anonymous 0 0 idle = .ok (none, idle) := rfl
  have hdiscovered : discoveredChannels ⟨true, ["alpha", "beta"]⟩ = .ok ["alpha", "beta"] := by
    decide +kernel
  refine ⟨⟨hreadable, fun names hnames => hall (exists_listReadableChannels_iff.1 ⟨names, hnames⟩),
    hanonymous, fun h => hall ((mem_advertised_iff hanonymous).1 h).2⟩, failsOn_failing, hdiscovered,
    fun h => ?_⟩
  have hrun : ∀ channel ∈ ["alpha", "beta"], channel ∉ ({"alpha"} : Set String) → channel ∈
      sessionsRun (discoveredChannels ⟨true, ["alpha", "beta"]⟩) failing blocked := by
    intro channel hchannel hnot
    rcases List.mem_cons.1 hchannel with rfl | hchannel
    · exact absurd rfl hnot
    · rwa [List.mem_singleton.1 hchannel]
  have hlt : "beta" < "alpha" := (forall_mem_sessionsRun_iff failsOn_failing hdiscovered).1 hrun
    "alpha" (by simp) "beta" (by simp) rfl (by simp)
  exact absurd hlt (by decide)

/-- The law for a node with one readable channel, and sessions that fail
on the last of two. -/
theorem channels_independent_general :
    (∃ names, listReadableChannels none (({} : Datadir).put general.fullName { log := some [] }) =
        .ok names ∧
      ∀ name, ReadableBy (({} : Datadir).put general.fullName { log := some [] }) none name →
        name ∈ names) ∧
    ∀ channel ∈ ["aleph", "alpha"], channel ∉ ({"alpha"} : Set String) →
      channel ∈ sessionsRun (discoveredChannels ⟨true, ["aleph", "alpha"]⟩) failing
        (({} : Datadir).put general.fullName { log := some [] }) := by
  have hlaw := channels_independent_iff (({} : Datadir).put general.fullName { log := some [] }) none
  have hdiscovered : discoveredChannels ⟨true, ["aleph", "alpha"]⟩ = .ok ["aleph", "alpha"] := by
    decide +kernel
  have hfirst : ∀ channel ∈ ["aleph", "alpha"], ∀ other ∈ ["aleph", "alpha"],
      channel ∈ ({"alpha"} : Set String) → other ∉ ({"alpha"} : Set String) → other < channel := by
    rintro channel - other hother rfl hnot
    rcases List.mem_cons.1 hother with rfl | hother
    · decide +kernel
    · exact absurd (List.mem_singleton.1 hother) hnot
  refine ⟨hlaw.1.2 fun name hname => ?_, (hlaw.2.2 _ _ _ _ failsOn_failing hdiscovered).2 hfirst⟩
  simp only [listChannels, List.mem_map, List.mem_filter, Prod.exists, Bool.and_eq_true] at hname
  obtain ⟨_, -, ⟨-, -, hvalid⟩, rfl⟩ := hname
  obtain ⟨chan, hchan⟩ := ChannelRef.exists_parse hvalid
  refine ⟨chan, .default, hchan, ?_⟩
  rw [readChannelPolicy, getElem?_put]
  by_cases hsame : general.fullName = chan.fullName
  · rw [if_pos hsame]
    rfl
  · rw [if_neg hsame]
    rfl

end Blocked

end Embernet
