import Embernet.Model.AutoSync
/-!
# The terminal client — `tui.rs`

The state of the terminal application and its handlers: key presses, the
local refresh, the events of the automatic synchronization, and what is
drawn of the timeline. What the handlers call (the store, the saved peers,
the metadata of files, a session) answers from a state of its own, call by
call, and others may change that state between any two handlers.
-/

set_option autoImplicit false

namespace Embernet

namespace Tui

/-! ## Keys and events -/

/-- What the keys are taken for. -/
inductive InputMode
  | normal
  | post
  | peer
  deriving DecidableEq

/-- What a key asks of the loop. -/
inductive Action
  | none
  | post (body : String)
  | sync (peer : String)
  deriving DecidableEq

/-- `KeyCode`, and in `other` the keys no handler knows. -/
inductive KeyCode
  | char (character : Char)
  | esc
  | enter
  | backspace
  | up
  | down
  | pageUp
  | pageDown
  | other
  deriving DecidableEq

/-- A key, as the terminal reports it. -/
structure KeyEvent where
  code : KeyCode
  control : Bool := false

/-- What the background worker reports. -/
inductive AutoSyncEvent
  | complete (peer : String) (summary : PeerSyncSummary)
  | failed (peer error : String)

/-! ## The application -/

/-- What is compared of a file. -/
structure FileFingerprint where
  length : ℕ
  modified : Option ℤ
  deriving DecidableEq

/-- What is compared of the node, to see whether it changed. -/
structure LocalStateFingerprint where
  channels : List String
  selectedFiles : List (Option FileFingerprint)
  deriving DecidableEq

/-- `App`. Its data directory is what the calls are answered from. -/
structure App where
  identity : KeypairFile
  channels : List String
  selected : ℕ
  messages : List Envelope
  scroll : ℕ
  maxScroll : ℕ
  followTail : Bool
  audit : Bool
  mode : InputMode
  input : String
  status : String
  role : String
  visibility : String
  policyConflicts : ℕ
  moderationConflicts : ℕ
  peers : List String
  connection : String
  listener : String
  localFingerprint : Option LocalStateFingerprint
  quit : Bool

/-- `App::channel`. -/
def App.channel (app : App) : Option String := app.channels[app.selected]?

/-- What the application calls on, and how it answers from a state. -/
class Services (σ : Type) where
  loadIdentity : Op σ Error KeypairFile
  listReadableChannels : (publicKey : Option String) → Op σ Error (List String)
  readChannelTailDecrypted : ChannelRef → (n : ℕ) → (audit : Bool) → Op σ Error (List Envelope)
  readChannelPolicy : ChannelRef → Op σ Error ChannelPolicy
  listPolicyConflicts : ChannelRef → Op σ Error (List String)
  listModerationConflicts : ChannelRef → Op σ Error (List String)
  /-- `file_fingerprint`, of a file in a channel's directory. -/
  fileFingerprint : (channel file : String) → Op σ Error (Option FileFingerprint)
  now : Op σ Error Int64
  signMessageForChannel : ChannelRef → KeypairFile → Message → Op σ Error Envelope
  appendMessage : ChannelRef → Envelope → Op σ Error String
  listPeers : Op σ Error (List String)
  addPeer : (url : String) → Op σ Error String
  syncFromPeer : (url channel : String) → Op σ Error ℕ

/-- What a handler does to the application, beside its calls. A failing
handler keeps what it had changed. -/
abbrev AppM (σ : Type) := Op (App × σ) Error

section Handlers

variable {σ : Type} {α : Type}

/-- A call. -/
def call (x : Op σ Error α) : AppM σ α := fun s =>
  match x.exec s.2 with
  | (result, store) => (result, s.1, store)

/-- The application as it is. -/
def theApp : AppM σ App := fun s => (.ok s.1, s)

/-- A change of the application. -/
def update (f : App → App) : AppM σ Unit := fun s => (.ok (), f s.1, s.2)

/-- The result of a handler whose error is looked at. -/
def attempt (x : AppM σ α) : AppM σ (Except Error α) := fun s =>
  match x.exec s with
  | (result, s') => (.ok result, s')

/-- `format!("{error:#}")`. -/
def alternate (e : Error) : String := ": ".intercalate e

/-- `usize::min(len.saturating_sub(1))`. -/
def clamp (selected length : ℕ) : ℕ := min selected (length - 1)

variable [Services σ]

/-- The list the store has for the application. -/
def App.listed (app : App) : Op σ Error (List String) :=
  Services.listReadableChannels (some app.identity.publicKey)

/-- The files `local_state_fingerprint` looks at. -/
def selectedFiles : AppM σ (List (Option FileFingerprint)) := do
  let app ← theApp
  match app.channel with
  | some channel =>
    ["log.ndjson", "policy.ndjson", "moderation.ndjson", "policy-conflicts",
      "moderation-conflicts"].mapM fun file => call (Services.fileFingerprint channel file)
  | none => pure []

/-- `local_state_fingerprint`. -/
def localStateFingerprint : AppM σ LocalStateFingerprint := do
  let app ← theApp
  let channels ← call app.listed
  let selectedFiles ← selectedFiles
  pure { channels, selectedFiles }

/-- The role `refresh` shows. -/
def roleShown (policy : ChannelPolicy) (publicKey : String) : String :=
  if policy.mode = .open_ then "open writer"
  else if policy.owner = some publicKey then "owner"
  else if publicKey ∈ policy.moderators then "moderator"
  else if publicKey ∈ policy.writers then "writer"
  else if publicKey ∈ policy.readers then "reader"
  else if policyAllowsRead policy publicKey = false then "non-member"
  else "reader"

/-- `refresh`. -/
def refresh : AppM σ Unit := do
  let app ← theApp
  match app.channel with
  | none =>
    update fun app => { app with messages := [], role := "-", visibility := "-" }
    let fingerprint ← localStateFingerprint
    update fun app => { app with localFingerprint := some fingerprint }
  | some channel =>
    let chan ← ChannelRef.parse channel
    let messages ← call (Services.readChannelTailDecrypted chan 500 app.audit)
    update fun app => { app with messages }
    let policy ← call (Services.readChannelPolicy chan)
    update fun app => { app with
      visibility := match policy.visibility with
        | .public_ => "public"
        | .private_ => "private"
      role := roleShown policy app.identity.publicKey }
    let policyConflicts ← call (Services.listPolicyConflicts chan)
    update fun app => { app with policyConflicts := policyConflicts.length }
    let moderationConflicts ← call (Services.listModerationConflicts chan)
    update fun app => { app with
      moderationConflicts := moderationConflicts.length, scroll := 0, followTail := true }
    let fingerprint ← localStateFingerprint
    update fun app => { app with localFingerprint := some fingerprint }

/-- What `App::load` builds. -/
def App.initial (identity : KeypairFile) (peers channels : List String) : App where
  identity
  channels
  selected := 0
  messages := []
  scroll := 0
  maxScroll := 0
  followTail := true
  audit := false
  mode := .normal
  input := ""
  status := "ready"
  role := "-"
  visibility := "-"
  policyConflicts := 0
  moderationConflicts := 0
  peers
  connection :=
    if peers = [] then "offline · no saved peers" else s!"connecting · {peers.length} peer(s)"
  listener := "not listening"
  localFingerprint := none
  quit := false

/-- An application that is returned if it refreshes. -/
def App.refreshed (app : App) : Op σ Error App := fun s =>
  match refresh.exec (app, s) with
  | (.ok (), app, s) => (.ok app, s)
  | (.error e, _, s) => (.error e, s)

/-- `App::load`. -/
def App.load : Op σ Error App := do
  let identity ← Services.loadIdentity
  let peers ← Services.listPeers
  let channels ← Services.listReadableChannels (some identity.publicKey)
  (App.initial identity peers channels).refreshed

/-- `refresh_if_local_state_changed`. -/
def refreshIfLocalStateChanged : AppM σ Bool := do
  let fingerprint ← localStateFingerprint
  let app ← theApp
  if app.localFingerprint = some fingerprint then pure false
  else
    update fun app => { app with
      channels := fingerprint.channels
      selected := (app.channel.bind fun selected =>
        fingerprint.channels.findIdx? (· == selected)).getD
          (clamp app.selected fingerprint.channels.length) }
    refresh
    update fun app' => { app' with
      scroll := app.scroll, followTail := app.followTail, status := "local changes detected" }
    pure true

/-- `handle_key`, where a text is entered. -/
def handleInput (code : KeyCode) : AppM σ Action := do
  let app ← theApp
  match code with
  | .esc =>
    update fun app => { app with mode := .normal, input := "" }
    pure .none
  | .enter =>
    let value := trim app.input
    update fun app => { app with mode := .normal, input := "" }
    pure (if value = "" then .none else if app.mode = .post then .post value else .sync value)
  | .backspace =>
    update fun app => { app with input := String.ofList app.input.toList.dropLast }
    pure .none
  | .char character =>
    update fun app => { app with input := app.input.push character }
    pure .none
  | _ => pure .none

/-- What the keys up and `K` do. -/
def selectUp : AppM σ Unit := do
  let app ← theApp
  if 0 < app.selected then
    update fun app => { app with selected := app.selected - 1 }
    refresh

/-- What the keys down and `J` do. -/
def selectDown : AppM σ Unit := do
  let app ← theApp
  if app.selected + 1 < app.channels.length then
    update fun app => { app with selected := app.selected + 1 }
    refresh

/-- What the key `r` does. -/
def reload : AppM σ Unit := do
  let app ← theApp
  let channels ← call app.listed
  update fun app => { app with channels, selected := clamp app.selected channels.length }
  refresh
  update fun app => { app with status := "refreshed" }

/-- `handle_key`, where no text is entered. -/
def handleNormal (key : KeyEvent) : AppM σ Unit := do
  let app ← theApp
  match key.code with
  | .char 'q' => update fun app => { app with quit := true }
  | .up | .char 'K' => selectUp
  | .down | .char 'J' => selectDown
  | .char 'k' | .pageUp =>
    update fun app => { app with scroll := app.scroll - 1, followTail := false }
  | .char 'j' | .pageDown =>
    let scroll := min (min (app.scroll + 1) 65535) app.maxScroll
    update fun app => { app with scroll, followTail := decide (app.maxScroll ≤ scroll) }
  | .char 'a' =>
    update fun app => { app with audit := !app.audit }
    refresh
    update fun app => { app with
      status := if app.audit then "audit view includes tombstoned messages"
        else "normal moderated view" }
  | .char 'p' =>
    if app.channel.isSome then
      update fun app => { app with mode := .post, input := "" }
  | .char 's' =>
    if app.channel.isSome then
      update fun app => { app with
        mode := .peer, input := app.peers.head?.getD "ws://127.0.0.1:4444/sync" }
  | .char 'r' => reload
  | .char 'c' => if key.control then update fun app => { app with quit := true }
  | _ => pure ()

/-- `handle_key`. -/
def handleKey (key : KeyEvent) : AppM σ Action := do
  let app ← theApp
  if app.mode = .normal then
    handleNormal key
    pure .none
  else handleInput key.code

/-- The body of `apply`. -/
def applyAction (action : Action) : AppM σ String := do
  let app ← theApp
  let channel ← orBail ["no channel selected"] app.channel
  let chan ← ChannelRef.parse channel
  match action with
  | .post body =>
    update fun app => { app with followTail := true }
    let ts ← call Services.now
    let envelope ← call (Services.signMessageForChannel chan app.identity
      { ts, type := .post, title := none, tags := [], refs := [], body := .text body })
    let id ← call (Services.appendMessage chan envelope)
    pure s!"posted {String.ofList (id.toList.take 12)}"
  | .sync peer =>
    let peer ← call (Services.addPeer peer)
    let peers ← call Services.listPeers
    update fun app => { app with peers }
    let received ← call (Services.syncFromPeer peer channel)
    update fun app => { app with connection := s!"connected · {peer}" }
    pure s!"sync complete: {received} received"
  | .none => pure ""

/-- `apply`. -/
def apply (action : Action) : AppM σ Unit := do
  if action = .none then pure ()
  else
    match ← attempt (applyAction action) with
    | .ok status =>
      update fun app => { app with status }
      match ← attempt refresh with
      | .ok () => pure ()
      | .error e => update fun app => { app with status := s!"refresh failed: {alternate e}" }
    | .error e => update fun app => { app with status := s!"error: {alternate e}" }

/-- What `apply_auto_sync` does with the list the store has. -/
def adopt (channels : List String) (summary : PeerSyncSummary) : AppM σ Unit := do
  let app ← theApp
  if channels ≠ app.channels ∨ 0 < summary.received then
    update fun app => { app with
      channels
      selected := (app.channel.bind fun selected =>
        channels.findIdx? (· == selected)).getD app.selected }
    match ← attempt refresh with
    | .error e => update fun app => { app with status := s!"refresh failed: {alternate e}" }
    | .ok () => update fun app' => { app' with
        scroll := app.scroll, followTail := app.followTail }

/-- `apply_auto_sync`. -/
def applyAutoSync : AutoSyncEvent → AppM σ Unit
  | .complete peer summary => do
    update fun app => { app with
      connection := s!"connected · {peer}"
      status := s!"auto-sync: {summary.channels} channel(s), {summary.received} received" }
    let app ← theApp
    match ← attempt (call app.listed) with
    | .ok channels => adopt channels summary
    | .error e => update fun app => { app with status := s!"channel refresh failed: {alternate e}" }
  | .failed peer error =>
    update fun app => { app with
      connection := s!"offline · {peer}", status := s!"auto-sync error: {error}" }

/-- What `render_timeline` does to the scroll, for the lines that the
messages fill and the height there is. -/
def renderTimeline (lines height : ℕ) : AppM σ Unit :=
  update fun app =>
    let maxScroll := min (lines - height) 65535
    { app with
      maxScroll
      scroll := if app.followTail then maxScroll else min app.scroll maxScroll }

/-! ## The loop -/

/-- What a turn of `run_loop` does for the action of a key. -/
def actOn : Action → AppM σ Unit
  | .sync peer => do
    let app ← theApp
    -- the session is spawned, and ends as an automatic one does
    let _ ← (orBail ["no channel selected"] app.channel : AppM σ String)
    let peer ← call (Services.addPeer peer)
    let peers ← call Services.listPeers
    update fun app => { app with peers, status := s!"syncing · {peer}" }
  | action => apply action

/-- What the loop does with a key. -/
def pressKey (key : KeyEvent) : AppM σ Unit := do
  let action ← handleKey key
  actOn action

/-- What a turn does for a change of the local state. -/
def refreshLocal : AppM σ Unit := do
  match ← attempt refreshIfLocalStateChanged with
  | .ok _ => pure ()
  | .error e => update fun app => { app with status := s!"local refresh failed: {alternate e}" }

/-- What happens to the application, and beside it. -/
inductive TuiEvent (σ : Type)
  | pressed (key : KeyEvent)
  | refreshed
  | synced (event : AutoSyncEvent)
  | drawn (lines height : ℕ)
  | interrupted
  /-- Others change what is answered from. -/
  | others (state : σ)

/-- The application after it. -/
def TuiEvent.exec : TuiEvent σ → App × σ → App × σ
  | .pressed key, s => ((pressKey key).exec s).2
  | .refreshed, s => (refreshLocal.exec s).2
  | .synced event, s => ((applyAutoSync event).exec s).2
  | .drawn lines height, s => ((renderTimeline lines height).exec s).2
  | .interrupted, s => ({ s.1 with quit := true }, s.2)
  | .others state, s => (s.1, state)

/-- One event as a step of the application and its store. -/
def TuiStep (s : App × σ) (event : TuiEvent σ) (s' : App × σ) : Prop := s' = event.exec s

end Handlers

end Tui

end Embernet
