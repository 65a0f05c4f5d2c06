import Embernet.Model.Log
import Embernet.Model.Moderation
/-!
# Datadir — the files of a node

A node keeps its identity in `keys/identity.json` and each channel in a
directory `channels/<name>`. A directory holds the files of the channel
of that name, and may also be the `policy-conflicts` or
`moderation-conflicts` directory of the channel above it; names nest, so
a directory may be there only because another is below it.

Lock files are not modelled: an operation that holds its lock is one
step, and where taking the lock needs the directory, the directory is
asked for.
-/

set_option autoImplicit false

namespace Embernet

/-- A file that holds one JSON value: it may be missing, or hold
something else. -/
inductive JsonFile (α : Type)
  | absent
  | malformed
  | value (a : α)
  deriving DecidableEq

/-- The files of one directory under `channels`. -/
structure Dir where
  /-- `log.ndjson` -/
  log : Option Bytes := none
  /-- `index.redb` -/
  index : Index := {}
  /-- `policy.json` -/
  policyJson : JsonFile ChannelPolicy := .absent
  /-- `policy.ndjson` -/
  policyLog : Option Bytes := none
  /-- `moderation.ndjson` -/
  moderationLog : Option Bytes := none
  /-- `moderation.json`, which is written and never read -/
  moderationJson : Option ModerationState := none
  /-- `channel-keys.json` -/
  channelKeys : JsonFile (List ChannelKey) := .absent
  /-- `<head>.ndjson`, by head: the histories saved here -/
  saved : Std.ExtTreeMap String Bytes := ∅

/-- A directory with no file in it. -/
def Dir.empty : Dir := {}

/-- Whether there is a file. -/
def JsonFile.isThere {α : Type} : JsonFile α → Bool
  | .absent => false
  | .malformed | .value _ => true

/-- The names of the files of a directory, each without its extension and
as often as there are such files. -/
def Dir.fileStems (dir : Dir) : List String :=
  (if dir.log.isSome then ["log"] else []) ++
  (if dir.index.logLen.isSome then ["index"] else []) ++
  (if dir.policyJson.isThere then ["policy"] else []) ++
  (if dir.policyLog.isSome then ["policy"] else []) ++
  (if dir.moderationLog.isSome then ["moderation"] else []) ++
  (if dir.moderationJson.isSome then ["moderation"] else []) ++
  (if dir.channelKeys.isThere then ["channel-keys"] else []) ++
  dir.saved.keys

/-- The files of a node. -/
structure Datadir where
  /-- `keys/identity.json` -/
  identity : JsonFile KeypairFile := .absent
  /-- The directories under `channels`, by path. -/
  channels : Std.ExtTreeMap String Dir := ∅

/-- Reads of a node's files. -/
abbrev ReadM := Query Datadir Error

/-- Operations on a node's files. -/
abbrev StoreM := Op Datadir Error

/-! ## Directories -/

/-- The directory of that path, which must be there. -/
def openDir (path : String) : ReadM Dir := fun d =>
  orBail ["No such file or directory"] d.channels[path]?

/-- The directory of a channel whose `log.ndjson` must be there. -/
def openLog (chan : ChannelRef) : ReadM (Dir × Bytes) := fun d => do
  let dir ← openDir chan.fullName d
  let log ← orBail ["No such file or directory"] dir.log
  pure (dir, log)

/-- The loop over the files of a directory of saved histories, which takes
each for a history and its name for the head. A directory that is not
there holds none. -/
def listSaved (path : String) : ReadM (List String) := fun d =>
  match d.channels[path]? with
  | none => pure []
  | some dir => pure (dir.fileStems.insertionSort (· ≤ ·))

/-- Writes files of a directory that is there. -/
def modifyDir (path : String) (f : Dir → Dir) : StoreM Unit :=
  modify fun d => { d with channels := d.channels.modify path f }

/-- The directory of a path and those above it, the highest first. -/
def pathPrefixes (above : List Char) : List Char → List String
  | [] => [String.ofList above.reverse]
  | c :: rest =>
    if c = '/' then String.ofList above.reverse :: pathPrefixes (c :: above) rest
    else pathPrefixes (c :: above) rest

/-- `ensure_dir`: makes the directory and those above it. -/
def ensureDir (path : String) : StoreM Unit :=
  modify fun d => { d with
    channels := (pathPrefixes [] path.toList).foldl (fun dirs p => dirs.insertIfNew p .empty) d.channels }

/-! ### What is written where -/

/-- The node with a directory's files replaced. -/
def Datadir.put (d : Datadir) (path : String) (dir : Dir) : Datadir :=
  { d with channels := d.channels.insert path dir }

@[simp] theorem Datadir.put_identity (d : Datadir) (path : String) (dir : Dir) :
    (d.put path dir).identity = d.identity := rfl

@[simp] theorem getElem?_put_self (d : Datadir) (path : String) (dir : Dir) :
    (d.put path dir).channels[path]? = some dir := by simp [Datadir.put]

theorem getElem?_put (d : Datadir) (path path' : String) (dir : Dir) :
    (d.put path dir).channels[path']? = if path = path' then some dir else d.channels[path']? := by
  simp [Datadir.put, Std.ExtTreeMap.getElem?_insert]

theorem getElem?_put_of_ne {d : Datadir} {path path' : String} {dir : Dir} (h : path ≠ path') :
    (d.put path dir).channels[path']? = d.channels[path']? := by rw [getElem?_put, if_neg h]

@[simp] theorem put_put (d : Datadir) (path : String) (dir dir' : Dir) :
    (d.put path dir).put path dir' = d.put path dir' := by
  simp only [Datadir.put, Datadir.mk.injEq, true_and]
  refine Std.ExtTreeMap.ext_getElem? fun k => ?_
  simp only [Std.ExtTreeMap.getElem?_insert]
  split <;> rfl

theorem put_self {d : Datadir} {path : String} {dir : Dir} (h : d.channels[path]? = some dir) :
    d.put path dir = d := by
  obtain ⟨identity, channels⟩ := d
  simp only [Datadir.put, Datadir.mk.injEq, true_and]
  refine Std.ExtTreeMap.ext_getElem? fun k => ?_
  rw [Std.ExtTreeMap.getElem?_insert]
  split
  · rename_i hk
    rw [Std.LawfulEqCmp.compare_eq_iff_eq] at hk
    rw [← hk, h]
  · rfl

/-- **Writing to a directory that is there replaces its files.** -/
theorem exec_modifyDir {d : Datadir} {path : String} {dir : Dir} {f : Dir → Dir}
    (h : d.channels[path]? = some dir) :
    (modifyDir path f).exec d = (.ok (), d.put path (f dir)) := by
  rw [modifyDir, Op.exec_modify]
  simp only [Datadir.put, Prod.mk.injEq, Datadir.mk.injEq, true_and]
  refine Std.ExtTreeMap.ext_getElem? fun k => ?_
  rw [Std.ExtTreeMap.getElem?_modify, Std.ExtTreeMap.getElem?_insert]
  split
  · rename_i hk
    rw [h]
    rfl
  · rfl

theorem openDir_ok {d : Datadir} {path : String} {dir : Dir} :
    openDir path d = .ok dir ↔ d.channels[path]? = some dir := by
  rw [openDir, orBail_eq_ok]

theorem openLog_ok {d : Datadir} {chan : ChannelRef} {dir : Dir} {log : Bytes} :
    openLog chan d = .ok (dir, log) ↔
      d.channels[chan.fullName]? = some dir ∧ dir.log = some log := by
  simp only [openLog, bind_eq_ok, openDir_ok, orBail_eq_ok, pure_eq_ok, Prod.mk.injEq]
  constructor
  · rintro ⟨_, hdir, _, hlog, rfl, rfl⟩
    exact ⟨hdir, hlog⟩
  · rintro ⟨hdir, hlog⟩
    exact ⟨dir, hdir, log, hlog, rfl, rfl⟩

/-- Making directories keeps the ones there are, and adds empty ones. -/
theorem getElem?_ensureDirs (paths : List String) (dirs : Std.ExtTreeMap String Dir)
    (path : String) :
    (paths.foldl (fun dirs p => dirs.insertIfNew p .empty) dirs)[path]? =
      dirs[path]?.or (if path ∈ paths then some Dir.empty else none) := by
  induction paths generalizing dirs with
  | nil => simp
  | cons p paths ih =>
    rw [List.foldl_cons, ih, Std.ExtTreeMap.getElem?_insertIfNew]
    by_cases hp : p = path
    · subst hp
      by_cases hmem : p ∈ dirs <;> simp [hmem]
    · simp [hp, Ne.symm hp]

/-- The last of the directories made is the one asked for. -/
theorem mem_pathPrefixes (above rest : List Char) :
    String.ofList (above.reverse ++ rest) ∈ pathPrefixes above rest := by
  induction rest generalizing above with
  | nil => simp [pathPrefixes]
  | cons c rest ih =>
    have := ih (c :: above)
    rw [List.reverse_cons, List.append_assoc, List.singleton_append] at this
    rw [pathPrefixes]
    split
    · exact List.mem_cons_of_mem _ this
    · exact this

theorem self_mem_pathPrefixes (path : String) : path ∈ pathPrefixes [] path.toList := by
  have := mem_pathPrefixes [] path.toList
  rwa [List.reverse_nil, List.nil_append, String.ofList_toList] at this

end Embernet
