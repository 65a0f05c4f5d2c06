import Embernet.Terminal.Display
/-!
# The MCP board — what a client sees of a channel

The server refines a board: a post adds its message in the clear, a tail
shows the last, and everything else a client may send leaves the board as
it is. That is so through signing, sealing, the log, the index and the
moderation, for as long as nobody else writes.
-/

set_option autoImplicit false

namespace Embernet

namespace Mcp

open Primitives Serde Proc

section Board

variable [Primitives] [Serde] {chan : ChannelRef} {me : KeypairFile} {d : Datadir} {b : Board}
  {supply : Supply} {raw : Bytes} {id : Value} {tool : Tool}

/-! ## The board machine -/

/-- The message asks for nothing of the channel. -/
def PassesBy (chan : ChannelRef) (raw : Bytes) : Prop :=
  ∀ id tool, Asks raw id tool → tool.channel? ≠ some chan.fullName

/-- **What a message does to the board**, and how it is answered. -/
inductive BoardStep (chan : ChannelRef) (me : KeypairFile) (supply : Supply) (raw : Bytes) :
    Board → List (JsonRpcResponse Value) → Board → Prop
  | tail {b : Board} {id : Value} {args : TailChannelArgs} :
      Asks raw id (.tailChannel args) → args.channel = chan.fullName →
      BoardStep chan me supply raw b
        [responseOf id (.ok (.content (.messages chan.fullName (b.view args.limit))))] b
  | post {b : Board} {id : Value} {args : PostMessageArgs} {env : Envelope} :
      Asks raw id (.postMessage args) → args.channel = chan.fullName → b.writable = true →
      env.channel = chan.fullName → env.sender = me.publicKey → env.verify = .ok () →
      BoardStep chan me supply raw b
        [responseOf id (.ok (.content (.posted env.id chan.fullName env)))]
        (b.post { env with
          msg := Message.newText supply.now args.title args.tags args.body args.refs })
  | refused {b : Board} {id : Value} {args : PostMessageArgs} {e : Error} :
      Asks raw id (.postMessage args) → args.channel = chan.fullName → b.writable = false →
      BoardStep chan me supply raw b [responseOf id (.error (toolError e))] b
  | other {b : Board} {rs : List (JsonRpcResponse Value)} :
      PassesBy chan raw → Answer supply raw rs → BoardStep chan me supply raw b rs b

/-- The messages of a stream, one after the other. -/
inductive Boards (chan : ChannelRef) (me : KeypairFile) :
    (ℕ → Supply) → List Bytes → Board → List (JsonRpcResponse Value) → Board → Prop
  | nil {supplies : ℕ → Supply} {b : Board} : Boards chan me supplies [] b [] b
  | cons {supplies : ℕ → Supply} {raw : Bytes} {raws : List Bytes} {b b' b'' : Board}
      {rs rs' : List (JsonRpcResponse Value)} : BoardStep chan me (supplies 0) raw b rs b' →
      Boards chan me (fun n => supplies (n + 1)) raws b' rs' b'' →
      Boards chan me supplies (raw :: raws) b (rs ++ rs') b''

/-! ## One message -/

/-- **Any other message** leaves the node as it is. -/
theorem solo_serve_of_not_asks (hasks : ∀ id tool, ¬ Asks raw id tool) :
    ((serve raw supply).solo d).2.2 = d := by
  unfold serve
  cases hread : readRequest raw with
  | error details => rfl
  | ok request =>
    dsimp only
    cases hid : request.id with
    | none => rfl
    | some id =>
      dsimp only
      -- nothing but a call of a tool runs anything
      suffices hhandle : ∃ r, handleRequest request supply = pure r by
        obtain ⟨r, hr⟩ := hhandle
        rw [hr]
        rfl
      unfold handleRequest
      split
      · exact ⟨_, rfl⟩
      split
      · exact ⟨_, rfl⟩
      split
      · exact ⟨_, rfl⟩
      split
      · exact ⟨_, rfl⟩
      split
      · next hversion _ _ _ hmethod =>
        unfold handleToolCall
        cases hparams : toolOf request.params with
        | error e => exact ⟨_, rfl⟩
        | ok tool =>
          exact absurd ⟨request, hread, hid, not_not.1 hversion, hmethod, hparams⟩ (hasks id tool)
      · exact ⟨_, rfl⟩

/-- Whatever the message, it is answered. -/
theorem exists_answer (raw : Bytes) (supply : Supply) (d : Datadir) :
    ∃ rs, Answer supply raw rs ∧
      (serve raw supply).solo d = (rs.map written, .ok (), ((serve raw supply).solo d).2.2) := by
  have htells : Tells (fun _ => True) (fun r ms => ∃ rs, Answer supply raw rs ∧
      ms = rs.map written ∧ r = .ok ()) [] (serve raw supply) :=
    tells_serve trivial (fun _ _ => trivial) fun rs hanswer => ⟨rs, hanswer, rfl, rfl⟩
  obtain ⟨rs, hanswer, hsent, hreturned⟩ := htells.solo d
  exact ⟨rs, hanswer, Prod.ext hsent (Prod.ext hreturned rfl)⟩

/-- **A message is a step of the board.** -/
theorem boardStep_serve (h : Shows chan me b d) (hme : me.Matches) (hraw : supply.raw.length = 32)
    (hnonce : supply.nonce.length = 24) :
    ∃ rs b' d', (serve raw supply).solo d = (rs.map written, .ok (), d') ∧
      BoardStep chan me supply raw b rs b' ∧ Shows chan me b' d' := by
  by_cases hpasses : PassesBy chan raw
  · -- a tool may run, but of another channel
    obtain ⟨rs, hanswer, hserve⟩ := exists_answer raw supply d
    refine ⟨rs, b, _, hserve, .other hpasses hanswer, ?_⟩
    by_cases hasks : ∃ id tool, Asks raw id tool
    · obtain ⟨id, tool, hasks⟩ := hasks
      rw [solo_serve_of_asks hasks rfl]
      exact shows_of_other (hpasses id tool hasks) h
    · rw [solo_serve_of_not_asks fun id tool htool => hasks ⟨id, tool, htool⟩]
      exact h
  · simp only [PassesBy, not_forall, ne_eq, not_not] at hpasses
    obtain ⟨id, tool, hasks, hchannel⟩ := hpasses
    obtain ⟨records, keys, hdisplays⟩ := h
    cases tool with
    | listChannels => cases hchannel
    | unknown name => cases hchannel
    | tailChannel args =>
      have hname : args.channel = chan.fullName := Option.some.inj hchannel
      obtain ⟨d', htail, hafter⟩ := hdisplays.solo_tailChannel hname
      exact ⟨[_], b, d', solo_serve_of_asks hasks htail, .tail hasks hname,
        records, keys, hafter⟩
    | postMessage args =>
      have hname : args.channel = chan.fullName := Option.some.inj hchannel
      cases hwritable : b.writable with
      | true =>
        obtain ⟨env, d', records', keys', hpost, henv, hsender, hverify, hafter⟩ :=
          hdisplays.solo_postMessage hme hwritable hname hraw hnonce
        exact ⟨[_], _, d', solo_serve_of_asks hasks hpost,
          .post hasks hname hwritable henv hsender hverify, records', keys', hafter⟩
      | false =>
        obtain ⟨e, d', keys', hpost, hafter⟩ :=
          hdisplays.solo_postMessage_refused hwritable hname hraw
        exact ⟨[_], b, d', solo_serve_of_asks hasks hpost, .refused hasks hname hwritable,
          records, keys', hafter⟩

/-! ## The whole stream -/

/-- **The server refines the board.** On a node that shows a board and that
nobody else writes, whatever a client sends: the server answers as the
board machine does, ends as the stream does, and leaves a node that shows
the machine's board. So a tail shows the last messages that are not hidden,
in the clear and each as it was posted, those of the same client among
them; and who may not write adds nothing. -/
theorem board_refined {supplies : ℕ → Supply} {stream : Bytes} (h : Shows chan me b d)
    (hme : me.Matches)
    (hdrawn : ∀ n, (supplies n).raw.length = 32 ∧ (supplies n).nonce.length = 24) :
    ∃ rs b' d', (runStdio supplies stream).solo d = (rs.map written, (messages stream).2, d') ∧
      Boards chan me supplies (messages stream).1 b rs b' ∧ Shows chan me b' d' := by
  fun_induction messages stream generalizing supplies b d with
  | case1 stream e hread =>
    rw [runStdio_of_error hread]
    exact ⟨[], b, d, rfl, .nil, h⟩
  | case2 stream rest hread =>
    rw [runStdio_of_none hread]
    exact ⟨[], b, d, rfl, .nil, h⟩
  | case3 stream raw rest hread ih =>
    obtain ⟨rs, b₁, d₁, hserve, hstep, hshows⟩ :=
      boardStep_serve h hme (hdrawn 0).1 (hdrawn 0).2
    obtain ⟨rs', b', d', hrest, hsteps, hafter⟩ := ih hshows fun n => hdrawn (n + 1)
    refine ⟨rs ++ rs', b', d', ?_, .cons hstep hsteps, hafter⟩
    rw [runStdio_of_some hread, solo_bind_of_ok hserve, hrest, List.map_append]

end Board

/-! ## A post and a tail -/

section Sample

open Simulated Proc

open Json (num str obj)

attribute [local instance] simulated simulatedSerde

/-- The board of a channel that was just made. -/
def blankBoard : Board := ⟨[], fun _ => false, true⟩

theorem shows_homeNode : Shows general (identity 1) blankBoard homeNode := by
  have hdir := getElem?_homeNode
  have hpolicy := readChannelPolicy_homeNode
  have hkeys : loadKeys general.fullName homeNode = .ok [] := by
    rw [loadKeys, hdir]
    rfl
  have horderly : Orderly general homeNode [] := EmptyChannel.orderly ⟨newDir, hdir, rfl, rfl⟩
  have hmoderation : ∃ state, moderationState general homeNode = .ok state ∧
      ∀ id, state.tombstoned.contains id = false := by
    have hhistory : readModerationHistory general homeNode = .ok [] := by
      rw [readModerationHistory, Query.bind_apply, openDir_ok.2 hdir]
      rfl
    have hpolicies : readPolicyHistory general homeNode = .ok [] := by
      rw [readPolicyHistory_of_getElem? hdir]
      rfl
    refine ⟨{}, ?_, fun id => rfl⟩
    rw [moderationState, Query.bind_apply, hhistory]
    show deriveModeration general [] homeNode = _
    rw [deriveModeration, Query.bind_apply, hpolicies]
    show (deriveModerationUnder general [] [] : Except Error ModerationState) = _
    exact deriveModerationUnder_nil
  refine ⟨[], [], rfl, ⟨_, openLog_ok.2 ⟨hdir, rfl⟩⟩, horderly, hkeys, .nil, hmoderation, ?_, .nil,
    ?_⟩
  · rw [authorizeRead, Query.bind_apply, hpolicy]
    rfl
  · exact iff_of_true rfl ⟨.default, hpolicy, rfl, fun hprivate => by cases hprivate⟩

/-- A tail of the channel, as a client asks for it. -/
def tailText : Bytes :=
  requestText 3 "tools/call" (obj [("name", str "tail_channel"), ("arguments",
    obj [("channel", str "general"), ("limit", num 10)])])

/-- A post, and a tail after it. -/
def boardFrames : List Frame := [postFrame, headed tailText (by decide +kernel)]

theorem board_refined_hello : ∃ rs b' d',
    (runStdio sampleSupply (boardFrames.flatMap Frame.bytes)).solo homeNode =
        (rs.map written, .ok (), d') ∧
      Boards general (identity 1) sampleSupply [postText, tailText] blankBoard rs b' ∧
      Shows general (identity 1) b' d' := by
  have hmessages : messages (boardFrames.flatMap Frame.bytes) = ([postText, tailText], .ok ()) :=
    messages_frames boardFrames
  have hdrawn (n : ℕ) : (sampleSupply n).raw.length = 32 ∧ (sampleSupply n).nonce.length = 24 :=
    ⟨List.length_replicate, List.length_replicate⟩
  obtain ⟨rs, b', d', hsolo, hboards, hshows⟩ :=
    board_refined shows_homeNode (matches_identity 1) hdrawn
  rw [hmessages] at hsolo hboards
  exact ⟨rs, b', d', hsolo, hboards, hshows⟩

end Sample

end Mcp

end Embernet
