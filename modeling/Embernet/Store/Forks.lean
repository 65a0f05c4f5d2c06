import Embernet.Lib.Archive
import Embernet.Store.Readable
/-!
# Forks — a history in use and the saved ones

The policy and the moderation of a channel are two archives: the history
file, and the forks saved beside it, each named by its head. Every
operation on any channel is a step of both archives.
-/

set_option autoImplicit false

namespace Embernet

open Primitives
open Op (Keeps)

/-! ## Files of a channel -/

/-- A file of the directory at a path. -/
def Datadir.fileAt (d : Datadir) (path : String) (file : Dir → Option Bytes) : Option Bytes :=
  d.channels[path]?.bind file

/-- The history saved under a head in the directory at a path. -/
def Datadir.savedAt (d : Datadir) (path head : String) : Option Bytes :=
  d.channels[path]?.bind fun dir => dir.saved[head]?

/-- Saves a history under its head. -/
def saveFork (path head : String) (bytes : Bytes) : StoreM Unit := do
  ensureDir path
  modifyDir path fun dir => { dir with saved := dir.saved.insert head bytes }

/-- The node with that history saved. -/
def Datadir.withFork (d : Datadir) (path head : String) (bytes : Bytes) : Datadir :=
  ((saveFork path head bytes).exec d).2

section Saving

variable {d : Datadir} {path head : String} {bytes : Bytes}

theorem getElem?_withFork (path' : String) : (d.withFork path head bytes).channels[path']? =
    let dir := d.channels[path']?.or
      (if path' ∈ pathPrefixes [] path.toList then some Dir.empty else none)
    if path = path' then dir.map fun dir => { dir with saved := dir.saved.insert head bytes }
    else dir := by
  rw [Datadir.withFork, saveFork, ensureDir, Op.exec_bind_of_ok (Op.exec_modify _),
    getElem?_modifyDir, getElem?_ensureDirs]

/-- Another directory that is there stays as it is. -/
theorem getElem?_withFork_of_some {path' : String} {dir : Dir} (hne : path ≠ path')
    (hdir : d.channels[path']? = some dir) :
    (d.withFork path head bytes).channels[path']? = some dir := by
  rw [getElem?_withFork, if_neg hne, hdir, Option.some_or]

/-- **One more history is saved**, and every other as before. -/
theorem savedAt_withFork :
    (d.withFork path head bytes).savedAt path =
      Function.update (d.savedAt path) head (some bytes) := by
  funext head'
  rw [Datadir.savedAt, getElem?_withFork, if_pos rfl, if_pos (self_mem_pathPrefixes path)]
  by_cases heq : head' = head
  · subst heq
    cases d.channels[path]? <;> simp
  · rw [Function.update_of_ne heq, Datadir.savedAt]
    cases d.channels[path]? with
    | none => simp [Ne.symm heq, Dir.empty]
    | some dir => simp [Std.ExtTreeMap.getElem?_insert, Ne.symm heq]

theorem savedAt_withFork_of_ne {path' : String} (hne : path ≠ path') :
    (d.withFork path head bytes).savedAt path' = d.savedAt path' := by
  funext head'
  rw [Datadir.savedAt, getElem?_withFork, if_neg hne, Datadir.savedAt]
  cases d.channels[path']? with
  | some dir => rfl
  | none =>
    rw [Option.none_or]
    split <;> simp [Dir.empty]

theorem fileAt_withFork {path' : String} {file : Dir → Option Bytes} (hempty : file .empty = none)
    (hne : path ≠ path') :
    (d.withFork path head bytes).fileAt path' file = d.fileAt path' file := by
  rw [Datadir.fileAt, getElem?_withFork, if_neg hne, Datadir.fileAt]
  cases d.channels[path']? with
  | some dir => rfl
  | none =>
    rw [Option.none_or]
    split
    · exact hempty
    · rfl

end Saving

/-! ## The two kinds of history -/

/-- A directory beside a channel's is one channel's. -/
theorem eq_of_append_eq {chan chan' : ChannelRef} {suffix : String}
    (h : chan.fullName ++ suffix = chan'.fullName ++ suffix) : chan = chan' := by
  obtain ⟨name, _⟩ := chan
  obtain ⟨name', _⟩ := chan'
  obtain rfl : name = name' := by simpa using h
  rfl

/-- A kind of signed history: how its events are written, what identifies
one, and where the histories are. -/
structure HistoryKind (Event : Type) where
  codec : Ndjson.Codec Event
  id : Event → String
  previous : Event → Option String
  payload : Event → Json
  previous_eq : ∀ {a b : Event}, payload a = payload b → previous a = previous b
  /-- The history in use. -/
  file : Dir → Option Bytes
  file_empty : file .empty = none
  /-- Where the others are saved. -/
  conflictDir : ChannelRef → String
  conflictDir_ne : ∀ chan, conflictDir chan ≠ chan.fullName
  conflictDir_inj : ∀ {chan chan'}, conflictDir chan = conflictDir chan' → chan = chan'

namespace HistoryKind

variable {Event : Type} (K : HistoryKind Event)

/-- The events a file holds, if it can be read. -/
def events (bytes : Bytes) : Option (List Event) := (Ndjson.parse K.codec.read bytes).toOption

/-- The history in use and the saved ones, as an archive. -/
def archive (chan : ChannelRef) (d : Datadir) : Archive String Event where
  current := (K.events ((d.fileAt chan.fullName K.file).getD [])).getD []
  saved head := (d.savedAt (K.conflictDir chan) head).bind K.events

variable {K} {chan : ChannelRef} {d d' : Datadir} {events : List Event} {head : String}

theorem events_records (events : List Event) :
    K.events (K.codec.records events) = some events := by
  rw [HistoryKind.events, Ndjson.parse_records]
  rfl

theorem current_of_parse
    (h : Ndjson.parse K.codec.read ((d.fileAt chan.fullName K.file).getD []) = .ok events) :
    (K.archive chan d).current = events := by
  rw [archive, HistoryKind.events, h]
  rfl

theorem archive_congr (hfile : d'.fileAt chan.fullName K.file = d.fileAt chan.fullName K.file)
    (hsaved : d'.savedAt (K.conflictDir chan) = d.savedAt (K.conflictDir chan)) :
    K.archive chan d' = K.archive chan d := by
  simp only [archive, hfile, hsaved]

/-- **Saving a history** saves it in the archive. -/
theorem archive_withFork :
    K.archive chan (d.withFork (K.conflictDir chan) head (K.codec.records events)) =
      (K.archive chan d).save head events := by
  simp only [archive, Archive.save, Archive.mk.injEq]
  refine ⟨by rw [fileAt_withFork K.file_empty (K.conflictDir_ne chan)], ?_⟩
  funext head'
  rw [savedAt_withFork]
  by_cases heq : head' = head
  · subst heq
    simp [events_records]
  · simp [heq]

/-- The node with the history in use saved, where another head is asked
for. -/
def displaced (K : HistoryKind Event) (chan : ChannelRef) (d : Datadir) (head : String)
    (current : List Event) : Datadir :=
  match current.getLast? with
  | some last =>
    if K.id last = head then d
    else d.withFork (K.conflictDir chan) (K.id last) (K.codec.records current)
  | none => d

theorem archive_displaced (hcurrent : (K.archive chan d).current = events) :
    K.archive chan (K.displaced chan d head events) =
      Archive.displace K.id (K.archive chan d) head := by
  rw [displaced, Archive.displace, Archive.head?, hcurrent]
  cases events.getLast? with
  | none => rfl
  | some last =>
    simp only [Option.map_some]
    split
    · rfl
    · exact archive_withFork

/-- Displacing leaves the channel's own directory alone. -/
theorem getElem?_displaced {dir : Dir} (hdir : d.channels[chan.fullName]? = some dir) :
    (K.displaced chan d head events).channels[chan.fullName]? = some dir := by
  rw [displaced]
  split
  · split
    · exact hdir
    · exact getElem?_withFork_of_some (K.conflictDir_ne chan) hdir
  · exact hdir

/-- **Putting a saved history in use** does so in the archive. -/
theorem archive_resolved {current : List Event} {dir : Dir}
    (hcurrent : (K.archive chan d).current = current)
    (hdir : K.file dir = some (K.codec.records events)) :
    K.archive chan ((K.displaced chan d head current).put chan.fullName dir) =
      Archive.resolve K.id (K.archive chan d) head events := by
  rw [Archive.resolve, ← archive_displaced hcurrent]
  simp only [archive, Archive.mk.injEq]
  constructor
  · rw [Datadir.fileAt, getElem?_put_self, Option.bind_some, hdir, Option.getD_some, events_records]
    rfl
  · funext head'
    rw [Datadir.savedAt, getElem?_put_of_ne (K.conflictDir_ne chan).symm]
    rfl

end HistoryKind

/-! ## Policy and moderation -/

section Signed

variable [Primitives]

/-- Policy histories. -/
def policyKind : HistoryKind PolicyEvent where
  codec := policyCodec
  id := PolicyEvent.id
  previous := PolicyEvent.previous
  payload := PolicyEvent.payload
  previous_eq h := (fields_of_payload_eq h).2.1
  file := Dir.policyLog
  file_empty := rfl
  conflictDir := policyConflictDir
  conflictDir_ne := policyConflictDir_ne
  conflictDir_inj := eq_of_append_eq

/-- Moderation histories. -/
def moderationKind : HistoryKind ModerationEvent where
  codec := moderationCodec
  id := ModerationEvent.id
  previous := ModerationEvent.previous
  payload := ModerationEvent.payload
  previous_eq h := (moderationEventPayload_inj.1 h).2.2.2.1
  file := Dir.moderationLog
  file_empty := rfl
  conflictDir := moderationConflictDir
  conflictDir_ne := moderationConflictDir_ne
  conflictDir_inj := eq_of_append_eq

namespace HistoryKind

variable {Event : Type} (K : HistoryKind Event)

/-- The id of the event is its payload's. -/
def Genuine (e : Event) : Prop := K.id e = hashHex (K.payload e).compact

/-- A step of the archive, with events whose ids are their payloads'. -/
abbrev Step : Archive String Event → Archive String Event → Prop :=
  Archive.Step K.id K.previous K.Genuine

/-- The invariant: the file can be appended to, and every saved history
is a chain under its own head. -/
structure Kept (chan : ChannelRef) (d : Datadir) : Prop where
  closed : Ndjson.Terminated ((d.fileAt chan.fullName K.file).getD [])
  filed : Archive.Filed K.id K.previous (K.archive chan d)
  genuine : ∀ e, (K.archive chan d).Holds e → K.Genuine e

end HistoryKind

/-! ### What an operation leaves alone -/

variable {chan chan' : ChannelRef} {d : Datadir} {op : StoreOp} {path : String}

omit [Primitives] in
/-- A change of a directory that leaves a file of it alone. -/
theorem bind_map_of_eq {β : Type} {file : Dir → Option β} {f : Dir → Dir} {x : Option β}
    {o : Option Dir} (h : o.bind file = x) (hf : ∀ dir, file (f dir) = file dir) :
    (o.map f).bind file = x := by
  rw [← h, Option.bind_map]
  exact congrArg o.bind (funext hf)

/-- What is saved is written by what saves. -/
theorem savedAt_storeOp (hpolicy : Part.policyFork ∈ op.parts → policyConflictDir chan' ≠ path)
    (hmoderation : Part.moderationFork ∈ op.parts → moderationConflictDir chan' ≠ path) :
    (op.exec chan' d).savedAt path = d.savedAt path := by
  funext head
  refine keeps_storeOp (R := fun o => (o.bind fun dir => dir.saved[head]?) = d.savedAt path head)
    (fun part hpart => ?_) d rfl
  cases part with
  | made => exact fun h => by rw [← h]; simp [Dir.empty]
  | keys => exact fun _ o keys h => bind_map_of_eq h fun _ => rfl
  | policy => exact fun _ o log json h => bind_map_of_eq h fun _ => rfl
  | moderation => exact fun _ o log json h => bind_map_of_eq h fun _ => rfl
  | policyFork => exact fun h => absurd h (hpolicy hpart)
  | moderationFork => exact fun h => absurd h (hmoderation hpart)
  | touch => exact fun _ o h => bind_map_of_eq h fun _ => rfl
  | index => exact fun _ dir _ db _ _ h => h
  | log => exact fun _ o log index h => bind_map_of_eq h fun _ => rfl

/-- The policy history is written by what writes policy. -/
theorem policyLog_storeOp (h : Part.policy ∈ op.parts → chan'.fullName ≠ path) :
    (op.exec chan' d).fileAt path Dir.policyLog = d.fileAt path Dir.policyLog := by
  refine keeps_storeOp (R := fun o => o.bind Dir.policyLog = d.fileAt path Dir.policyLog)
    (fun part hpart => ?_) d rfl
  cases part with
  | made => exact fun h => h
  | keys => exact fun _ o keys h => bind_map_of_eq h fun _ => rfl
  | policy => exact fun hpath => absurd hpath (h hpart)
  | moderation => exact fun _ o log json h => bind_map_of_eq h fun _ => rfl
  | policyFork => exact fun _ o head bytes h => bind_map_of_eq h fun _ => rfl
  | moderationFork => exact fun _ o head bytes h => bind_map_of_eq h fun _ => rfl
  | touch => exact fun _ o h => bind_map_of_eq h fun _ => rfl
  | index => exact fun _ dir _ db _ _ h => h
  | log => exact fun _ o log index h => bind_map_of_eq h fun _ => rfl

/-- And the moderation history by what writes moderation. -/
theorem moderationLog_storeOp (h : Part.moderation ∈ op.parts → chan'.fullName ≠ path) :
    (op.exec chan' d).fileAt path Dir.moderationLog = d.fileAt path Dir.moderationLog := by
  refine keeps_storeOp (R := fun o => o.bind Dir.moderationLog = d.fileAt path Dir.moderationLog)
    (fun part hpart => ?_) d rfl
  cases part with
  | made => exact fun h => h
  | keys => exact fun _ o keys h => bind_map_of_eq h fun _ => rfl
  | policy => exact fun _ o log json h => bind_map_of_eq h fun _ => rfl
  | moderation => exact fun hpath => absurd hpath (h hpart)
  | policyFork => exact fun _ o head bytes h => bind_map_of_eq h fun _ => rfl
  | moderationFork => exact fun _ o head bytes h => bind_map_of_eq h fun _ => rfl
  | touch => exact fun _ o h => bind_map_of_eq h fun _ => rfl
  | index => exact fun _ dir _ db _ _ h => h
  | log => exact fun _ o log index h => bind_map_of_eq h fun _ => rfl

/-! ### What an operation does to the archives -/

namespace HistoryKind

variable {Event : Type} {K : HistoryKind Event} {events more : List Event} {d' : Datadir}

omit [Primitives] in
theorem saved_of_readSaved {head : String}
    (h : readSaved K.codec.read (K.conflictDir chan) head d = .ok events) :
    (K.archive chan d).saved head = some events := by
  obtain ⟨bytes, hbytes, hparse⟩ := readSaved_ok.1 h
  change (d.savedAt (K.conflictDir chan) head).bind K.events = some events
  rw [Datadir.savedAt, hbytes, Option.bind_some, HistoryKind.events, hparse]
  rfl

/-- What an operation does to one archive, from a file that is closed: a
step, after which the file is closed. -/
def Moves (K : HistoryKind Event) (chan : ChannelRef) (d d' : Datadir) : Prop :=
  Ndjson.Terminated ((d.fileAt chan.fullName K.file).getD []) →
    K.Step (K.archive chan d) (K.archive chan d') ∧
      Ndjson.Terminated ((d'.fileAt chan.fullName K.file).getD [])

theorem Moves.of_eq (hfile : d'.fileAt chan.fullName K.file = d.fileAt chan.fullName K.file)
    (hsaved : d'.savedAt (K.conflictDir chan) = d.savedAt (K.conflictDir chan)) :
    K.Moves chan d d' := by
  intro hclosed
  rw [archive_congr hfile hsaved, hfile]
  exact ⟨.stay _, hclosed⟩

/-- Appending records. -/
theorem Moves.append
    (hparse : Ndjson.parse K.codec.read ((d.fileAt chan.fullName K.file).getD []) = .ok events)
    (hmore : ∀ e ∈ more, K.Genuine e)
    (hfile : d'.fileAt chan.fullName K.file = if more.isEmpty then d.fileAt chan.fullName K.file
      else some ((d.fileAt chan.fullName K.file).getD [] ++ K.codec.records more))
    (hsaved : d'.savedAt (K.conflictDir chan) = d.savedAt (K.conflictDir chan)) :
    K.Moves chan d d' := by
  intro hclosed
  obtain ⟨hparse', hclosed'⟩ := append_records K.codec hclosed hparse more
  have hcurrent : (K.archive chan d).current = events := current_of_parse hparse
  have harchive : K.archive chan d' =
      { K.archive chan d with current := (K.archive chan d).current ++ more } := by
    rw [hcurrent]
    simp only [archive, hsaved, Archive.mk.injEq, and_true]
    rw [hfile, HistoryKind.events, hparse']
    rfl
  rw [harchive, hfile]
  exact ⟨.extend hmore, hclosed'⟩

/-- Saving a history. -/
theorem Moves.save (hgood : ∀ e ∈ events, K.Genuine e)
    (hchain : HashChain.Chained K.id K.previous none events) {head : String}
    (hhead : Archive.head? K.id events = some head) :
    K.Moves chan d (d.withFork (K.conflictDir chan) head (K.codec.records events)) := by
  intro hclosed
  rw [archive_withFork, fileAt_withFork K.file_empty (K.conflictDir_ne chan)]
  exact ⟨.save hgood hchain hhead, hclosed⟩

/-- Putting a saved history in use. -/
theorem Moves.resolve {current : List Event} {dir : Dir} {head : String}
    (hsaved : (K.archive chan d).saved head = some events)
    (hhead : Archive.head? K.id events = some head)
    (hchain : HashChain.Chained K.id K.previous none events)
    (hcurrent : (K.archive chan d).current = current)
    (hchain' : HashChain.Chained K.id K.previous none current)
    (hdir : K.file dir = some (K.codec.records events)) :
    K.Moves chan d ((K.displaced chan d head current).put chan.fullName dir) := by
  intro _
  rw [archive_resolved hcurrent hdir, Datadir.fileAt, getElem?_put_self, Option.bind_some, hdir]
  exact ⟨.resolve hsaved hhead hchain (hcurrent ▸ hchain'), K.codec.terminated_records events⟩

end HistoryKind

/-! ### Saving and resolving -/

variable {d' : Datadir} {head : String}

/-- What saving a policy history does: nothing, or it saves a history that
derives. -/
theorem savePolicyConflict_ends (chan : ChannelRef) (d : Datadir) (events : List PolicyEvent) :
    Op.FailsOr (savePolicyConflict chan events) d fun r => ∃ policy last,
      derivePolicy chan events = .ok policy ∧ events.getLast? = some last ∧
      r = (.ok last.id,
        d.withFork (policyConflictDir chan) last.id (policyCodec.records events)) :=
  .except fun policy hpolicy => .orBail fun last hlast => .ends ⟨policy, last, hpolicy, hlast, rfl⟩

/-- A policy history that derives is saved. -/
theorem exec_savePolicyConflict_of_ok {events : List PolicyEvent} {last : PolicyEvent}
    {policy : ChannelPolicy} (hpolicy : derivePolicy chan events = .ok policy)
    (hlast : events.getLast? = some last) : (savePolicyConflict chan events).exec d =
      (.ok last.id, d.withFork (policyConflictDir chan) last.id (policyCodec.records events)) := by
  rw [savePolicyConflict, hpolicy, hlast]
  rfl

/-- And saving a moderation history, which derives under the policy of the
node. -/
theorem saveModerationConflict_ends (chan : ChannelRef) (d : Datadir)
    (events : List ModerationEvent) :
    Op.FailsOr (saveModerationConflict chan events) d fun r => ∃ state last,
      deriveModeration chan events d = .ok state ∧ events.getLast? = some last ∧
      r = (.ok last.id,
        d.withFork (moderationConflictDir chan) last.id (moderationCodec.records events)) :=
  .query fun state hstate => .orBail fun last hlast => .ends ⟨state, last, hstate, hlast, rfl⟩

/-- The node after a policy history was put in use. -/
def resolvedPolicy (chan : ChannelRef) (d : Datadir) (dir : Dir) (head : String)
    (current events : List PolicyEvent) (policy : ChannelPolicy) : Datadir :=
  (policyKind.displaced chan d head current).put chan.fullName
    { dir with policyLog := some (policyCodec.records events), policyJson := .value policy }

/-- After a moderation history was. -/
def resolvedModeration (chan : ChannelRef) (d : Datadir) (dir : Dir) (head : String)
    (current events : List ModerationEvent) (state : ModerationState) : Datadir :=
  (moderationKind.displaced chan d head current).put chan.fullName
    { dir with
      moderationLog := some (moderationCodec.records events), moderationJson := some state }

omit [Primitives] in
/-- The history in use is saved where it has another head. -/
theorem exec_displaced {Event α : Type} {K : HistoryKind Event} {current : List Event}
    {save : StoreM String} {k : StoreM α} [Decidable (current ≠ [])]
    (hsave : ∀ last, current.getLast? = some last → save.exec d =
      (.ok (K.id last), d.withFork (K.conflictDir chan) (K.id last) (K.codec.records current))) :
    (if current ≠ [] ∧ current.getLast?.map K.id ≠ some head then do
        let _ ← save
        k
      else k).exec d = k.exec (K.displaced chan d head current) := by
  rw [HistoryKind.displaced]
  cases hlast : current.getLast? with
  | none =>
    obtain rfl := List.getLast?_eq_none_iff.1 hlast
    rw [if_neg (by simp)]
  | some last =>
    have hne : current ≠ [] := fun h => by simp [h] at hlast
    by_cases heq : K.id last = head
    · rw [if_neg (by simp [heq])]
      simp only [if_pos heq]
    · rw [if_pos ⟨hne, by simpa using heq⟩, Op.exec_bind_of_ok (hsave last hlast)]
      simp only [if_neg heq]

/-- **What resolving a policy conflict does**: nothing, or it puts a saved
history in use that derives and has the head asked for. -/
theorem resolvePolicyConflict_ends (chan : ChannelRef) (d : Datadir) (head : String) :
    Op.FailsOr (resolvePolicyConflict chan head) d fun r => ∃ events policy dir log current,
      readSaved readPolicyEvent (policyConflictDir chan) head d = .ok events ∧
      events.getLast?.map PolicyEvent.id = some head ∧ derivePolicy chan events = .ok policy ∧
      openLog chan d = .ok (dir, log) ∧ readPolicyLog chan dir = .ok current ∧
      r = (.ok policy, resolvedPolicy chan d dir head current events policy) := by
  refine .except fun _ _ => .query fun events hevents => .bailIf fun hhead =>
    .except fun policy hpolicy => .query fun ⟨dir, log⟩ hopen => .except fun current hcurrent => ?_
  replace hhead := not_not.1 hhead
  refine .ends ⟨events, policy, dir, log, current, hevents, hhead, hpolicy, hopen, hcurrent, ?_⟩
  obtain ⟨policy₀, hpolicy₀⟩ := (readPolicyLog_ok.1 hcurrent).2
  have hsave (last : PolicyEvent) (hlast : current.getLast? = some last) :=
    exec_savePolicyConflict_of_ok (d := d) hpolicy₀ hlast
  have hdisplaced :
      (policyKind.displaced chan d head current).channels[chan.fullName]? = some dir :=
    HistoryKind.getElem?_displaced (openLog_ok.1 hopen).1
  rw [hhead]
  refine (exec_displaced (K := policyKind) hsave).trans ?_
  rw [Op.exec_bind_of_ok (exec_modifyDir hdisplaced)]
  rfl

/-- The end of a resolution: the history in use is saved, the other takes
its place. -/
theorem exec_putModeration {events current : List ModerationEvent} {state state₀ : ModerationState}
    {dir : Dir} (hdir : d.channels[chan.fullName]? = some dir)
    (hcurrent : deriveModeration chan current d = .ok state₀)
    (hhead : events.getLast?.map ModerationEvent.id = some head) :
    (do
      if current ≠ [] ∧
          current.getLast?.map ModerationEvent.id ≠ events.getLast?.map ModerationEvent.id then
        let _ ← saveModerationConflict chan current
      modifyDir chan.fullName fun dir =>
        { dir with
          moderationLog := some (moderationCodec.records events)
          moderationJson := some state }
      pure state : StoreM ModerationState).exec d =
      (.ok state, resolvedModeration chan d dir head current events state) := by
  have hsave : ∀ last, current.getLast? = some last →
      (saveModerationConflict chan current).exec d = (.ok last.id,
        d.withFork (moderationConflictDir chan) last.id (moderationCodec.records current)) := by
    intro last hlast
    rw [saveModerationConflict, Op.exec_query_bind, hcurrent, hlast]
    rfl
  have hdisplaced :
      (moderationKind.displaced chan d head current).channels[chan.fullName]? = some dir :=
    HistoryKind.getElem?_displaced hdir
  rw [hhead]
  refine (exec_displaced (K := moderationKind) hsave).trans ?_
  rw [Op.exec_bind_of_ok (exec_modifyDir hdisplaced)]
  rfl

/-- What was read of the moderation file derives. -/
theorem deriveModeration_of_readModerationLog {M N : List ModerationEvent} {state : ModerationState}
    {dir : Dir} (hdir : d.channels[chan.fullName]? = some dir)
    (hstate : deriveModeration chan N d = .ok state) (hM : readModerationLog chan dir d = .ok M) :
    ∃ state₀, deriveModeration chan M d = .ok state₀ := by
  obtain ⟨P, hP, -⟩ := (deriveModeration_ok hdir).1 hstate
  obtain ⟨state₀, hstate₀⟩ := ((readModerationLog_ok hdir hP).1 hM).derived
  exact ⟨state₀, (deriveModeration_ok hdir).2 ⟨P, hP, hstate₀⟩⟩

/-- **And a moderation conflict.** -/
theorem resolveModerationConflict_ends (chan : ChannelRef) (d : Datadir) (head : String) :
    Op.FailsOr (resolveModerationConflict chan head) d fun r => ∃ events state dir log current,
      readSaved readModerationEvent (moderationConflictDir chan) head d = .ok events ∧
      events.getLast?.map ModerationEvent.id = some head ∧
      deriveModeration chan events d = .ok state ∧
      openLog chan d = .ok (dir, log) ∧ readModerationLog chan dir d = .ok current ∧
      r = (.ok state, resolvedModeration chan d dir head current events state) := by
  refine .except fun _ _ => .query fun events hevents => .bailIf fun hhead =>
    .query fun state hstate => .query fun ⟨dir, log⟩ hopen => .query fun current hcurrent => ?_
  replace hhead := not_not.1 hhead
  have hdir := (openLog_ok.1 hopen).1
  obtain ⟨state₀, hstate₀⟩ := deriveModeration_of_readModerationLog hdir hstate hcurrent
  exact .ends ⟨events, state, dir, log, current, hevents, hhead, hstate, hopen, hcurrent,
    exec_putModeration hdir hstate₀ hhead⟩

/-- A moderation history that was saved may be put in use. -/
theorem exec_resolveModerationConflict {events current : List ModerationEvent}
    {last : ModerationEvent} {state : ModerationState} {dir : Dir} {log : Bytes}
    (hsaved : readSaved readModerationEvent (moderationConflictDir chan) last.id d = .ok events)
    (hlast : events.getLast? = some last) (hstate : deriveModeration chan events d = .ok state)
    (hopen : openLog chan d = .ok (dir, log))
    (hcurrent : readModerationLog chan dir d = .ok current) :
    (resolveModerationConflict chan last.id).exec d =
      (.ok state, resolvedModeration chan d dir last.id current events state) := by
  have hdir := (openLog_ok.1 hopen).1
  obtain ⟨P, -, hderived⟩ := (deriveModeration_ok hdir).1 hstate
  have hid : validatePublicKey last.id = .ok () := by
    rw [computedId_of_deriveModeration hderived (List.mem_of_getLast? hlast)]
    simp [validatePublicKey, ModerationEvent.computedId, hashHex, bind_eq_ok, length_blake3]
  have hhead : events.getLast?.map ModerationEvent.id = some last.id := by
    rw [hlast]
    rfl
  obtain ⟨state₀, hstate₀⟩ := deriveModeration_of_readModerationLog hdir hstate hcurrent
  rw [resolveModerationConflict, Op.exec_except_bind, hid]
  simp only [context]
  rw [Op.exec_query_bind, hsaved]
  simp only
  rw [Op.exec_bailIf_bind, if_neg (not_not.2 hhead), Op.exec_query_bind, hstate]
  simp only
  rw [Op.exec_query_bind, hopen]
  simp only
  rw [Op.exec_query_bind, hcurrent]
  exact exec_putModeration hdir hstate₀ hhead

/-! ### Every operation is a step -/

omit [Primitives] in
theorem moderationConflictDir_ne_policyConflictDir :
    moderationConflictDir chan' ≠ policyConflictDir chan := by
  intro h
  have hlist : (chan'.fullName.toList ++ "/mod".toList) ++ "eration-conflicts".toList =
      chan.fullName.toList ++ "/policy-conflicts".toList := by
    have := congrArg String.toList h
    simpa [moderationConflictDir, policyConflictDir, String.toList_append] using this
  have := (List.append_inj' hlist (by decide)).2
  revert this
  decide

omit [Primitives] in
theorem fullName_ne (h : chan' ≠ chan) : chan'.fullName ≠ chan.fullName := by
  intro hname
  obtain ⟨name, _⟩ := chan
  obtain ⟨name', _⟩ := chan'
  obtain rfl : name' = name := hname
  exact h rfl

/-- Nothing but what makes a directory makes one. -/
theorem absent_storeOp (h : Part.made ∉ op.parts) (hdir : d.channels[path]? = none) :
    (op.exec chan' d).channels[path]? = none := by
  refine keeps_storeOp (R := fun o => o = none) (fun part hpart => ?_) d hdir
  have hmap {o : Option Dir} {f : Dir → Dir} (ho : o = none) : o.map f = none := by rw [ho]; rfl
  cases part with
  | made => exact absurd hpart h
  | keys => exact fun _ o keys => hmap
  | policy => exact fun _ o log json => hmap
  | moderation => exact fun _ o log json => hmap
  | policyFork => exact fun _ o head bytes => hmap
  | moderationFork => exact fun _ o head bytes => hmap
  | touch => exact fun _ o => hmap
  | index => exact fun _ dir _ db _ _ h => absurd h (by simp)
  | log => exact fun _ o log index => hmap

/-- What saves no policy fork moves the policy archive. -/
theorem policy_moves_of_not_fork (hfork : Part.policyFork ∉ op.parts) :
    policyKind.Moves chan d (op.exec chan d) := by
  have hsaved : (op.exec chan d).savedAt (policyConflictDir chan) =
      d.savedAt (policyConflictDir chan) :=
    savedAt_storeOp (fun h => absurd h hfork) fun _ => moderationConflictDir_ne_policyConflictDir
  by_cases hpolicy : Part.policy ∈ op.parts
  swap
  · exact .of_eq (policyLog_storeOp fun h => absurd h hpolicy) hsaved
  cases hdir : d.channels[chan.fullName]? with
  | none =>
    have hmade : Part.made ∉ op.parts := by
      cases op <;> simp_all [StoreOp.parts]
    refine .of_eq ?_ hsaved
    rw [Datadir.fileAt, absent_storeOp hmade hdir, Datadir.fileAt, hdir]
  | some dir =>
    obtain ⟨files, hchange, dir', hdir', rfl⟩ := history_change op hdir
    have hfile : d.fileAt chan.fullName Dir.policyLog = dir.policyLog := by
      rw [Datadir.fileAt, hdir, Option.bind_some]
    have hfile' : (op.exec chan d).fileAt chan.fullName Dir.policyLog = dir'.policyLog := by
      rw [Datadir.fileAt, hdir', Option.bind_some]
    have happend {current more : List PolicyEvent} {policy : ChannelPolicy}
        (hcurrent : readPolicyLog chan dir = .ok current)
        (hderived : ∃ Q policy, derivePolicy chan Q = .ok policy ∧ more ⊆ Q)
        (h : dir'.histories = (appendPolicyRecords more policy dir).histories) :
        policyKind.Moves chan d (op.exec chan d) := by
      obtain ⟨Q, derived, hderived, hsub⟩ := hderived
      have hparse : Ndjson.parse policyKind.codec.read
          ((d.fileAt chan.fullName policyKind.file).getD []) = .ok current :=
        hfile ▸ (readPolicyLog_ok.1 hcurrent).1
      have hgood : ∀ e ∈ more, policyKind.Genuine e := fun e he =>
        (mem_of_derivePolicy hderived (hsub he)).2.1
      refine .append hparse hgood ?_ hsaved
      exact hfile'.trans (hfile ▸ congrArg HistoryFiles.policyLog h)
    have hsame (h : dir'.histories.policyLog = dir.policyLog) :
        policyKind.Moves chan d (op.exec chan d) :=
      .of_eq (hfile'.trans (Eq.trans h hfile.symm)) hsaved
    generalize hfiles : dir'.histories = files at hchange
    cases hchange with
    | unchanged => exact hsame (congrArg HistoryFiles.policyLog hfiles)
    | policyAction hcurrent _ _ hderived =>
      exact happend hcurrent ⟨_, _, hderived, List.subset_append_right _ _⟩ hfiles
    | policyRemote _ _ hcurrent hderived =>
      exact happend hcurrent ⟨_, _, hderived, List.drop_subset _ _⟩ hfiles
    | policyRebuilt => exact hsame (congrArg HistoryFiles.policyLog hfiles)
    | policyResolved hresolve =>
      subst hresolve
      exact absurd (by simp [StoreOp.parts]) hfork
    | moderationAction => exact hsame (congrArg HistoryFiles.policyLog hfiles)
    | moderationRemote => exact hsame (congrArg HistoryFiles.policyLog hfiles)
    | moderationResolved => exact hsame (congrArg HistoryFiles.policyLog hfiles)

/-- **Every operation moves the policy archive.** -/
theorem policy_moves (chan' : ChannelRef) (op : StoreOp) (d : Datadir) :
    policyKind.Moves chan d (op.exec chan' d) := by
  by_cases hchan : chan' = chan
  swap
  · have hpath : policyConflictDir chan' ≠ policyConflictDir chan := fun h =>
      hchan (eq_of_append_eq h)
    exact .of_eq (policyLog_storeOp fun _ => fullName_ne hchan)
      (savedAt_storeOp (fun _ => hpath) fun _ => moderationConflictDir_ne_policyConflictDir)
  subst hchan
  by_cases hfork : Part.policyFork ∈ op.parts
  swap
  · exact policy_moves_of_not_fork hfork
  have hstay : policyKind.Moves chan' d d := .of_eq rfl rfl
  cases op with
  | savePolicyConflict events =>
    rw [StoreOp.exec, StoreOp.op, exec_ignore]
    rcases savePolicyConflict_ends chan' d events with ⟨e, hexec⟩ |
      ⟨policy, last, hpolicy, hlast, hexec⟩
    · rw [hexec]
      exact hstay
    · rw [hexec]
      have hhead : Archive.head? policyKind.id events = some last.id := by
        rw [Archive.head?, hlast]
        rfl
      have hgood : ∀ e ∈ events, policyKind.Genuine e := fun e he =>
        (mem_of_derivePolicy hpolicy he).2.1
      exact .save hgood (chained_of_derivePolicy hpolicy) hhead
  | resolvePolicyConflict head =>
    rw [StoreOp.exec, StoreOp.op, exec_ignore]
    rcases resolvePolicyConflict_ends chan' d head with ⟨e, hexec⟩ |
      ⟨events, policy, dir, log, current, hsaved, hhead, hpolicy, hopen, hcurrent, hexec⟩
    · rw [hexec]
      exact hstay
    · rw [hexec]
      have hdir := (openLog_ok.1 hopen).1
      obtain ⟨hparse, _, hpolicy'⟩ := readPolicyLog_ok.1 hcurrent
      have hfile : d.fileAt chan'.fullName policyKind.file = dir.policyLog := by
        rw [Datadir.fileAt, hdir, Option.bind_some]
        rfl
      exact .resolve (HistoryKind.saved_of_readSaved hsaved) hhead (chained_of_derivePolicy hpolicy)
        (HistoryKind.current_of_parse (hfile ▸ hparse)) (chained_of_derivePolicy hpolicy') rfl
  | _ => simp [StoreOp.parts] at hfork

/-- A moderation history that derives is a chain of genuine events. -/
theorem chained_of_deriveModeration {P : List PolicyEvent} {M : List ModerationEvent}
    {state : ModerationState} (h : deriveModerationUnder chan P M = .ok state) :
    HashChain.Chained ModerationEvent.id ModerationEvent.previous none M := by
  have hreplay {s t : ModerationCursor} {N : List ModerationEvent}
      (h : Replay.replay (deriveModerationStep chan P) s N = .ok t) :
      HashChain.Chained ModerationEvent.id ModerationEvent.previous s.previous N := by
    induction N generalizing s with
    | nil => trivial
    | cons e N ih =>
      obtain ⟨u, hu, hrest⟩ := Replay.replay_cons_ok.1 h
      obtain ⟨-, hprev, -, -, -, -, hcursor⟩ := deriveModerationStep_ok.1 hu
      exact ⟨hprev, hcursor ▸ ih hrest⟩
  obtain ⟨s, hs, -⟩ := deriveModerationUnder_ok.1 h
  exact hreplay hs

theorem moderation_moves_of_not_fork (hfork : Part.moderationFork ∉ op.parts) :
    moderationKind.Moves chan d (op.exec chan d) := by
  have hsaved : (op.exec chan d).savedAt (moderationConflictDir chan) =
      d.savedAt (moderationConflictDir chan) :=
    savedAt_storeOp (fun _ => moderationConflictDir_ne_policyConflictDir.symm)
      fun h => absurd h hfork
  by_cases hmoderation : Part.moderation ∈ op.parts
  swap
  · exact .of_eq (moderationLog_storeOp fun h => absurd h hmoderation) hsaved
  cases hdir : d.channels[chan.fullName]? with
  | none =>
    have hmade : Part.made ∉ op.parts := by
      cases op <;> simp_all [StoreOp.parts]
    refine .of_eq ?_ hsaved
    rw [Datadir.fileAt, absent_storeOp hmade hdir, Datadir.fileAt, hdir]
  | some dir =>
    obtain ⟨files, hchange, dir', hdir', rfl⟩ := history_change op hdir
    have hfile : d.fileAt chan.fullName Dir.moderationLog = dir.moderationLog := by
      rw [Datadir.fileAt, hdir, Option.bind_some]
    have hfile' : (op.exec chan d).fileAt chan.fullName Dir.moderationLog =
        dir'.moderationLog := by
      rw [Datadir.fileAt, hdir', Option.bind_some]
    have happend {P : List PolicyEvent} {current more N : List ModerationEvent}
        {state : ModerationState} (hcurrent : HasModeration chan dir.histories P current)
        (hderived : deriveModerationUnder chan P N = .ok state) (hsub : more ⊆ N)
        (h : dir'.histories = (appendModerationRecords more state dir).histories) :
        moderationKind.Moves chan d (op.exec chan d) := by
      have hparse : Ndjson.parse moderationKind.codec.read
          ((d.fileAt chan.fullName moderationKind.file).getD []) = .ok current :=
        hfile ▸ parseHistory_ok.1 hcurrent.moderation
      have hgood : ∀ e ∈ more, moderationKind.Genuine e := fun e he =>
        computedId_of_deriveModeration hderived (hsub he)
      refine .append hparse hgood ?_ hsaved
      exact hfile'.trans (hfile ▸ congrArg HistoryFiles.moderationLog h)
    have hsame (h : dir'.histories.moderationLog = dir.moderationLog) :
        moderationKind.Moves chan d (op.exec chan d) :=
      .of_eq (hfile'.trans (Eq.trans h hfile.symm)) hsaved
    generalize hfiles : dir'.histories = files at hchange
    cases hchange with
    | unchanged => exact hsame (congrArg HistoryFiles.moderationLog hfiles)
    | policyAction => exact hsame (congrArg HistoryFiles.moderationLog hfiles)
    | policyRemote => exact hsame (congrArg HistoryFiles.moderationLog hfiles)
    | policyRebuilt => exact hsame (congrArg HistoryFiles.moderationLog hfiles)
    | policyResolved => exact hsame (congrArg HistoryFiles.moderationLog hfiles)
    | moderationAction hcurrent hderived =>
      exact happend hcurrent hderived (List.subset_append_right _ _) hfiles
    | moderationRemote _ hcurrent hderived =>
      exact happend hcurrent hderived (List.drop_subset _ _) hfiles
    | moderationResolved hresolve =>
      subst hresolve
      exact absurd (by simp [StoreOp.parts]) hfork

/-- **And the moderation archive.** -/
theorem moderation_moves (chan' : ChannelRef) (op : StoreOp) (d : Datadir) :
    moderationKind.Moves chan d (op.exec chan' d) := by
  by_cases hchan : chan' = chan
  swap
  · have hpath : moderationConflictDir chan' ≠ moderationConflictDir chan := fun h =>
      hchan (eq_of_append_eq h)
    exact .of_eq (moderationLog_storeOp fun _ => fullName_ne hchan)
      (savedAt_storeOp (fun _ => moderationConflictDir_ne_policyConflictDir.symm) fun _ => hpath)
  subst hchan
  by_cases hfork : Part.moderationFork ∈ op.parts
  swap
  · exact moderation_moves_of_not_fork hfork
  have hstay : moderationKind.Moves chan' d d := .of_eq rfl rfl
  cases op with
  | saveModerationConflict events =>
    rw [StoreOp.exec, StoreOp.op, exec_ignore]
    rcases saveModerationConflict_ends chan' d events with ⟨e, hexec⟩ |
      ⟨state, last, hstate, hlast, hexec⟩
    · rw [hexec]
      exact hstay
    · rw [hexec]
      have hhead : Archive.head? moderationKind.id events = some last.id := by
        rw [Archive.head?, hlast]
        rfl
      rw [deriveModeration, Query.bind_ok] at hstate
      obtain ⟨P, -, hderived⟩ := hstate
      have hgood : ∀ e ∈ events, moderationKind.Genuine e := fun e he =>
        computedId_of_deriveModeration hderived he
      exact .save hgood (chained_of_deriveModeration hderived) hhead
  | resolveModerationConflict head =>
    rw [StoreOp.exec, StoreOp.op, exec_ignore]
    rcases resolveModerationConflict_ends chan' d head with ⟨e, hexec⟩ |
      ⟨events, state, dir, log, current, hsaved, hhead, hstate, hopen, hcurrent, hexec⟩
    · rw [hexec]
      exact hstay
    · rw [hexec]
      have hdir := (openLog_ok.1 hopen).1
      obtain ⟨P, hP, hderived⟩ := (deriveModeration_ok hdir).1 hstate
      obtain ⟨-, hparse, _, hderived'⟩ := (readModerationLog_ok hdir hP).1 hcurrent
      have hfile : d.fileAt chan'.fullName moderationKind.file = dir.moderationLog := by
        rw [Datadir.fileAt, hdir, Option.bind_some]
        rfl
      exact .resolve (HistoryKind.saved_of_readSaved hsaved) hhead
        (chained_of_deriveModeration hderived)
        (HistoryKind.current_of_parse (hfile ▸ parseHistory_ok.1 hparse))
        (chained_of_deriveModeration hderived') rfl
  | _ => simp [StoreOp.parts] at hfork

end Signed

end Embernet
