import Embernet.Model.SimulatedSerde
import Embernet.Signing.Tampering
import Embernet.Store.Isolation
import Embernet.Terminal.Framing
/-!
# MCP requests — every request gets its answer

The server answers what it reads, one response a request and none for a
notification, in the order in which they came, whatever the tools meet and
whatever other processes write meanwhile. What it writes is read back
response by response.
-/

set_option autoImplicit false

namespace Embernet

namespace Mcp

open Primitives Serde

/-! ## What a tool may return -/

/-- A message as it was posted, but for its body. -/
def SameHeading (args : PostMessageArgs) (now : Int64) (msg : Message) : Prop :=
  msg.ts = now ∧ msg.type = .post ∧ msg.title = args.title ∧ msg.tags = args.tags ∧
    msg.refs = args.refs

/-- What a tool may return. -/
def Fits [Primitives] (supply : Supply) : Tool → Payload → Prop
  | .listChannels, .channels names => ∀ name ∈ names, validChannel name = true
  | .tailChannel args, .messages channel messages =>
    channel = args.channel ∧ messages.length ≤ args.limit ∧
      ∀ env ∈ messages, env.channel = channel
  | .postMessage args, .posted id channel env =>
    channel = args.channel ∧ env.channel = channel ∧ env.id = id ∧ env.verify = .ok () ∧
      SameHeading args supply.now env.msg
  | _, _ => False

section Results

variable [Primitives] {chan : ChannelRef} {d d' : Datadir} {supply : Supply}

theorem length_readTail {log : Bytes} {hidden : String → Bool} {n : ℕ}
    {entries : List (String × ℕ × ℕ)} {envs : List Envelope}
    (h : readTail log chan hidden n entries = .ok envs) : envs.length ≤ n := by
  induction entries generalizing n envs with
  | nil =>
    cases n <;> cases h <;> simp
  | cons entry entries ih =>
    obtain ⟨id, offset, length⟩ := entry
    cases n with
    | zero =>
      cases h
      simp
    | succ n =>
      rw [readTail] at h
      split at h
      · exact ih h
      · simp only [bind_eq_ok, pure_eq_ok] at h
        obtain ⟨env, -, rest, hrest, rfl⟩ := h
        simpa using ih hrest

/-- **A tail** is no longer than was asked. -/
theorem length_readChannelTail {n : ℕ} {envs : List Envelope}
    (h : ((readChannelTail chan n false).exec d).1 = .ok envs) : envs.length ≤ n := by
  rw [readChannelTail] at h
  split at h
  · cases h
    simp
  · simp only [Bool.false_eq_true, if_false, Op.exec_query_bind] at h
    cases hstate : moderationState chan d with
    | error e =>
      rw [hstate] at h
      cases h
    | ok state =>
      simp only [hstate, result_readIndexed, bind_eq_ok, Prod.exists, tailOf, pure_eq_ok] at h
      obtain ⟨dir, log, -, db, -, newest, hnewest, rfl⟩ := h
      simpa using length_readTail hnewest

theorem decryptEnvelope_channel {env plain : Envelope} (h : decryptEnvelope env d = .ok plain) :
    plain.channel = env.channel := by
  unfold decryptEnvelope at h
  cases hbody : env.msg.body with
  | text text =>
    rw [hbody] at h
    cases h
    rfl
  | encrypted keyId nonce ciphertext =>
    rw [hbody] at h
    simp only [Query.bind_ok, Query.pure_apply] at h
    obtain ⟨_, -, _, -, _, -, _, -, _, -, _, -, _, -, _, -, h⟩ := h
    cases h
    rfl

/-- What is appended, where the call returns. -/
theorem exec_appendMessage_ok {env : Envelope} {id : String}
    (h : (appendMessage chan env).exec d = (.ok id, d')) :
    env.channel = chan.fullName ∧ env.verify = .ok () ∧ env.id = id := by
  rw [appendMessage] at h
  obtain ⟨_, t, hchan, h⟩ := Op.exec_bind_ok.1 h
  rw [Op.exec_bailIf, Prod.mk.injEq, bailIf_eq_ok, not_not] at hchan
  obtain ⟨_, u, hverify, h⟩ := Op.exec_bind_ok.1 h
  rw [Op.exec_except, Prod.mk.injEq, context_eq_ok] at hverify
  obtain ⟨dir, v, -, h⟩ := Op.exec_bind_ok.1 h
  obtain ⟨_, v, -, h⟩ := Op.exec_bind_ok.1 h
  obtain ⟨_, v, -, h⟩ := Op.exec_bind_ok.1 h
  obtain ⟨db, v, -, h⟩ := Op.exec_bind_ok.1 h
  obtain ⟨_, v, -, h⟩ := Op.exec_bind_ok.1 h
  refine ⟨hchan.1, hverify.1, ?_⟩
  split at h
  · cases h
    rfl
  · obtain ⟨_, v, -, h⟩ := Op.exec_bind_ok.1 h
    obtain ⟨db, v, -, h⟩ := Op.exec_bind_ok.1 h
    obtain ⟨_, v, -, h⟩ := Op.exec_bind_ok.1 h
    cases h
    rfl

theorem encryptMessage_ok {channel : String} {nonce : Bytes} {message encrypted : Message}
    (h : encryptMessage channel nonce message d = .ok encrypted) :
    encrypted = { message with body := encrypted.body } := by
  unfold encryptMessage at h
  cases hbody : message.body with
  | text text =>
    rw [hbody] at h
    simp only [Query.bind_ok, Query.pure_apply] at h
    obtain ⟨_, -, _, -, h⟩ := h
    cases h
    rfl
  | encrypted keyId nonce' ciphertext =>
    rw [hbody] at h
    simp only [Query.bind_ok] at h
    obtain ⟨_, -, _, -, h⟩ := h
    cases h

theorem exec_encrypt_sign_ok {signer : KeypairFile} {message : Message} {nonce : Bytes}
    {env : Envelope}
    (h : Op.exec (do
      let encrypted ← encryptMessage chan.fullName nonce message
      (Envelope.sign signer chan.fullName encrypted : Except Error Envelope) :
        StoreM Envelope) d = (.ok env, d')) :
    env.channel = chan.fullName ∧ env.sender = signer.publicKey ∧
      env.msg = { message with body := env.msg.body } := by
  obtain ⟨encrypted, t, hencrypted, h⟩ := Op.exec_bind_ok.1 h
  rw [Op.exec_query, Prod.mk.injEq] at hencrypted
  rw [Op.exec_except, Prod.mk.injEq, Envelope.sign_ok] at h
  obtain ⟨⟨sig, -, rfl⟩, -⟩ := h
  exact ⟨rfl, rfl, encryptMessage_ok hencrypted.1⟩

/-- **What is signed** says what it was given, but for a body that is
sealed. -/
theorem exec_signMessageForChannel_ok {signer : KeypairFile} {message : Message} {raw nonce : Bytes}
    {env : Envelope}
    (h : (signMessageForChannel chan signer message raw nonce).exec d = (.ok env, d')) :
    env.channel = chan.fullName ∧ env.sender = signer.publicKey ∧
      env.msg = { message with body := env.msg.body } := by
  rw [signMessageForChannel] at h
  obtain ⟨policy, t, -, h⟩ := Op.exec_bind_ok.1 h
  split at h
  · obtain ⟨keys, u, -, h⟩ := Op.exec_bind_ok.1 h
    dsimp only at h
    split at h
    · obtain ⟨key, v, -, h⟩ := Op.exec_bind_ok.1 h
      exact exec_encrypt_sign_ok h
    · exact exec_encrypt_sign_ok h
  · rw [Op.exec_except, Prod.mk.injEq, Envelope.sign_ok] at h
    obtain ⟨⟨sig, -, rfl⟩, -⟩ := h
    exact ⟨rfl, rfl, rfl⟩

omit [Primitives] in
theorem ends_call {l : Call} {α : Type} {x : StoreM α} {a : α}
    (h : (Proc.call l x : Task α).Ends (.ok a)) : ∃ d d', x.exec d = (.ok a, d') := by
  cases h with
  | act hexec hret =>
    cases hret
    exact ⟨_, _, hexec⟩

theorem ends_decryptEnvelopes {envs plains : List Envelope}
    (h : (decryptEnvelopes envs).Ends (.ok plains)) :
    plains.length = envs.length ∧
      ∀ channel, (∀ env ∈ envs, env.channel = channel) → ∀ env ∈ plains, env.channel = channel := by
  induction envs generalizing plains with
  | nil =>
    cases h
    simp
  | cons env envs ih =>
    rw [decryptEnvelopes] at h
    obtain ⟨plain, hplain, h⟩ := Proc.ends_bind h
    obtain ⟨rest, hrest, h⟩ := Proc.ends_bind h
    cases h
    obtain ⟨d, d', hexec⟩ := ends_call hplain
    have hread : decryptEnvelope env d = .ok plain := congrArg Prod.fst hexec
    obtain ⟨hlength, hchannel⟩ := ih hrest
    refine ⟨by simp [hlength], fun channel hall => ?_⟩
    rw [List.forall_mem_cons] at hall ⊢
    exact ⟨(decryptEnvelope_channel hread).trans hall.1, hchannel channel hall.2⟩

/-- **What a tool returns fits it**, whatever others write between its
calls. -/
theorem fits_of_ends {tool : Tool} {payload : Payload}
    (h : (tool.run supply).Ends (.ok payload)) : Fits supply tool payload := by
  cases tool with
  | listChannels =>
    obtain ⟨identity, -, h⟩ := Proc.ends_bind h
    obtain ⟨names, hnames, h⟩ := Proc.ends_bind h
    cases h
    obtain ⟨d, d', hexec⟩ := ends_call hnames
    intro name hname
    have hlist : listReadableChannels (some identity.publicKey) d = .ok names :=
      congrArg Prod.fst hexec
    unfold listReadableChannels at hlist
    obtain ⟨name', -, hkept⟩ := (mem_of_filterMapM hlist).1 hname
    simp only [bind_eq_ok, pure_eq_ok] at hkept
    obtain ⟨chan, hparse, policy, -, hkept⟩ := hkept
    split at hkept
    · cases hkept
      rw [← ChannelRef.fullName_of_parse hparse]
      exact chan.valid
    · cases hkept
  | tailChannel args =>
    obtain ⟨chan, hparse, h⟩ := Proc.ends_bind h
    obtain ⟨_, -, h⟩ := Proc.ends_bind h
    obtain ⟨identity, -, h⟩ := Proc.ends_bind h
    obtain ⟨_, -, h⟩ := Proc.ends_bind h
    obtain ⟨envs, henvs, h⟩ := Proc.ends_bind h
    obtain ⟨messages, hmessages, h⟩ := Proc.ends_bind h
    cases h
    obtain ⟨d, d', hexec⟩ := ends_call henvs
    have hread : ((readChannelTail chan args.limit false).exec d).1 = .ok envs := by rw [hexec]
    obtain ⟨hsame, hplain⟩ := ends_decryptEnvelopes hmessages
    refine ⟨ChannelRef.fullName_of_parse (Proc.ends_except.1 hparse), ?_, ?_⟩
    · rw [hsame]
      exact length_readChannelTail hread
    · exact hplain _ fun env henv => channel_of_mem_readChannelTail hread henv
  | postMessage args =>
    obtain ⟨chan, hparse, h⟩ := Proc.ends_bind h
    obtain ⟨_, -, h⟩ := Proc.ends_bind h
    obtain ⟨keypair, -, h⟩ := Proc.ends_bind h
    obtain ⟨env, hsign, h⟩ := Proc.ends_bind h
    obtain ⟨id, happend, h⟩ := Proc.ends_bind h
    cases h
    obtain ⟨d, d', hexec⟩ := ends_call hsign
    obtain ⟨t, t', hexec'⟩ := ends_call happend
    obtain ⟨hchannel, -, hmsg⟩ := exec_signMessageForChannel_ok hexec
    obtain ⟨-, hverify, hid⟩ := exec_appendMessage_ok hexec'
    refine ⟨ChannelRef.fullName_of_parse (Proc.ends_except.1 hparse), hchannel, hid, hverify, ?_⟩
    rw [hmsg]
    exact ⟨rfl, rfl, rfl, rfl, rfl⟩
  | unknown name => cases h

/-- A tool writes nothing on the stream. -/
theorem silent_run (tool : Tool) (supply : Supply) : (tool.run supply).Sends fun _ => False := by
  have hcall {α : Type} (l : Call) (x : StoreM α) :
      (Proc.call l x : Task α).Sends fun _ => False := fun _ => trivial
  have hdecrypt (envs : List Envelope) : (decryptEnvelopes envs).Sends fun _ => False := by
    induction envs with
    | nil => exact trivial
    | cons env envs ih =>
      exact (hcall _ _).bind fun _ => ih.bind fun _ => trivial
  cases tool with
  | listChannels => exact (hcall _ _).bind fun _ => (hcall _ _).bind fun _ => trivial
  | tailChannel args =>
    refine (Proc.sends_except _).bind fun _ => (hcall _ _).bind fun _ => ?_
    refine (hcall _ _).bind fun _ => (hcall _ _).bind fun _ => (hcall _ _).bind fun _ => ?_
    exact (hdecrypt _).bind fun _ => trivial
  | postMessage args =>
    refine (Proc.sends_except _).bind fun _ => (hcall _ _).bind fun _ => ?_
    exact (hcall _ _).bind fun _ => (hcall _ _).bind fun _ => (hcall _ _).bind fun _ => trivial
  | unknown name => exact trivial

end Results

/-! ## What is answered -/

section Server

variable [Primitives] [Serde]

/-- How a request may be answered. -/
inductive Settles (supply : Supply) (request : JsonRpcRequest Value) :
    Except JsonRpcError Outcome → Prop
  | version : request.jsonrpc.getD jsonrpcVersion ≠ jsonrpcVersion →
      Settles supply request (.error (invalidRequest "jsonrpc must be \"2.0\""))
  | initialized : request.method = "initialize" → Settles supply request (.ok initializeResult)
  | ping : request.method = "ping" → Settles supply request (.ok .pong)
  | tools : request.method = "tools/list" → Settles supply request (.ok (.tools toolDefinitions))
  | refused {e : JsonRpcError} : request.method = "tools/call" →
      toolOf request.params = .error e → Settles supply request (.error e)
  | returned {tool : Tool} {payload : Payload} : request.method = "tools/call" →
      toolOf request.params = .ok tool → Fits supply tool payload →
      Settles supply request (.ok (.content payload))
  | failed {tool : Tool} {e : Error} : request.method = "tools/call" →
      toolOf request.params = .ok tool → Settles supply request (.error (toolError e))
  | unknown :
      request.method ∉ ["initialize", "ping", "tools/list", "tools/call"] →
      Settles supply request (.error (methodNotFound s!"unknown method: {request.method}"))

/-- The responses to a message: one, or none to a notification. -/
inductive Answer (supply : Supply) (raw : Bytes) : List (JsonRpcResponse Value) → Prop
  | malformed {details : String} : readRequest raw = .error details →
      Answer supply raw [parseError details]
  | notification {request : JsonRpcRequest Value} : readRequest raw = .ok request →
      request.id = none → Answer supply raw []
  | request {request : JsonRpcRequest Value} {id : Value} {r : Except JsonRpcError Outcome} :
      readRequest raw = .ok request → request.id = some id → Settles supply request r →
      Answer supply raw [responseOf id r]

/-- The responses to messages, in their order. -/
inductive Answers (supplies : ℕ → Supply) : List Bytes → List (JsonRpcResponse Value) → Prop
  | nil : Answers supplies [] []
  | snoc {raws : List Bytes} {raw : Bytes} {rs rs' : List (JsonRpcResponse Value)} :
      Answers supplies raws rs → Answer (supplies raws.length) raw rs' →
      Answers supplies (raws ++ [raw]) (rs ++ rs')

/-- What `write_response` writes. -/
def written (r : JsonRpcResponse Value) : Bytes :=
  utf8 s!"Content-Length: {(toVec r).length}\r\n\r\n" ++ toVec r

omit [Primitives] [Serde] in
/-- The messages a stream holds, and how it ends. -/
def messages (stream : Bytes) : List Bytes × Except Error Unit :=
  match _h : readMcpMessage stream with
  | .error e => ([], .error e)
  | .ok (none, _) => ([], .ok ())
  | .ok (some raw, rest) => (raw :: (messages rest).1, (messages rest).2)
termination_by stream.length
decreasing_by exact length_lt_of_readHeaders _h

variable {P : List Bytes → Prop} {ms : List Bytes} {supply : Supply} {d : Datadir} {raw : Bytes}
  {id : Value} {tool : Tool}

theorem tells_handleRequest {request : JsonRpcRequest Value}
    {R : Except Error (Except JsonRpcError Outcome) → List Bytes → Prop} (hP : P ms)
    (hR : ∀ r, Settles supply request r → R (.ok r) ms) :
    Proc.Tells P R ms (handleRequest request supply) := by
  unfold handleRequest
  split
  · exact .pure hP (hR _ (.version ‹_›))
  split
  · exact .pure hP (hR _ (.initialized ‹_›))
  split
  · exact .pure hP (hR _ (.ping ‹_›))
  split
  · exact .pure hP (hR _ (.tools ‹_›))
  split
  · next hmethod =>
    unfold handleToolCall
    cases htool : toolOf request.params with
    | error e => exact .pure hP (hR _ (.refused hmethod htool))
    | ok tool =>
      -- the attempt returns, whatever the tool meets
      refine .bind (.attempt (silent_run tool supply) hP fun r hends => ⟨r, rfl, ?_⟩)
      refine .pure hP (hR _ ?_)
      cases r with
      | error e => exact .failed hmethod htool
      | ok payload => exact .returned hmethod htool (fits_of_ends hends)
  · refine .pure hP (hR _ (.unknown ?_))
    simp only [List.mem_cons, List.not_mem_nil, or_false, not_or]
    exact ⟨‹_›, ‹_›, ‹_›, ‹_›⟩

omit [Primitives] in
theorem tells_respond {response : JsonRpcResponse Value} {R : Except Error Unit → List Bytes → Prop}
    (hP : P ms) (hP' : P (ms ++ [written response])) (hR : R (.ok ()) (ms ++ [written response])) :
    Proc.Tells P R ms (respond response) := .emit hP hP' hR

/-- **One message is answered as it should be.** -/
theorem tells_serve {raw : Bytes} {R : Except Error Unit → List Bytes → Prop} (hP : P ms)
    (hP' : ∀ rs, Answer supply raw rs → P (ms ++ rs.map written))
    (hR : ∀ rs, Answer supply raw rs → R (.ok ()) (ms ++ rs.map written)) :
    Proc.Tells P R ms (serve raw supply) := by
  unfold serve
  cases hread : readRequest raw with
  | error details =>
    have hanswer : Answer supply raw [parseError details] := .malformed hread
    exact tells_respond hP (hP' _ hanswer) (hR _ hanswer)
  | ok request =>
    dsimp only
    cases hid : request.id with
    | none =>
      have hanswer : Answer supply raw [] := .notification hread hid
      have hnone := hR _ hanswer
      rw [List.map_nil, List.append_nil] at hnone
      exact .pure hP hnone
    | some id =>
      refine .bind (tells_handleRequest hP fun r hsettles => ⟨r, rfl, ?_⟩)
      have hanswer : Answer supply raw [responseOf id r] := .request hread hid hsettles
      exact tells_respond hP (hP' _ hanswer) (hR _ hanswer)

/-! ## A request to run a tool -/

/-- The message is a request to run the tool. -/
def Asks (raw : Bytes) (id : Value) (tool : Tool) : Prop :=
  ∃ request, readRequest raw = .ok request ∧ request.id = some id ∧
    request.jsonrpc.getD jsonrpcVersion = jsonrpcVersion ∧ request.method = "tools/call" ∧
    toolOf request.params = .ok tool

/-- The result of a tool, as the result of its request. -/
def settled (r : Except Error Payload) : Except JsonRpcError Outcome :=
  r.map Outcome.content |>.mapError toolError

/-- **A request to run a tool** runs it, and answers with what it returns. -/
theorem solo_serve_of_asks (hasks : Asks raw id tool) {ms : List Bytes} {r : Except Error Payload}
    {d' : Datadir} (htool : (tool.run supply).solo d = (ms, r, d')) :
    (serve raw supply).solo d = (ms ++ [written (responseOf id (settled r))], .ok (), d') := by
  obtain ⟨request, hread, hid, hversion, hmethod, hparams⟩ := hasks
  have hhandle : handleRequest request supply = handleToolCall request.params supply := by
    simp [handleRequest, hversion, hmethod]
  have hcall : (handleToolCall request.params supply).solo d = (ms, .ok (settled r), d') := by
    have hattempt : ((tool.run supply).attempt : Task _).solo d = (ms, .ok r, d') := by
      rw [Proc.solo_attempt, htool]
    rw [handleToolCall, hparams]
    dsimp only
    rw [Proc.solo_bind_of_ok hattempt]
    simp [settled]
  unfold serve
  rw [hread]
  dsimp only
  rw [hid]
  dsimp only
  rw [hhandle, Proc.solo_bind_of_ok hcall]
  rfl

/-! ## The whole stream -/

/-- What was written so far: the responses to the first of the messages. -/
def Answering (supplies : ℕ → Supply) (raws : List Bytes) (ms : List Bytes) : Prop :=
  ∃ done rs, done <+: raws ∧ Answers supplies done rs ∧ ms = rs.map written

/-- **The loop**, from where some messages were answered. -/
theorem tells_runStdio (supplies : ℕ → Supply) (stream : Bytes) {done : List Bytes}
    {rs : List (JsonRpcResponse Value)} (hdone : Answers supplies done rs) :
    Proc.Tells (Answering supplies (done ++ (messages stream).1))
      (fun r ms => ∃ rs, Answers supplies (done ++ (messages stream).1) rs ∧
        ms = rs.map written ∧ r = (messages stream).2)
      (rs.map written) (runStdio (fun n => supplies (done.length + n)) stream) := by
  fun_induction messages stream generalizing done rs with
  | case1 stream e hread =>
    rw [runStdio_of_error hread, List.append_nil]
    exact .throw ⟨done, rs, List.prefix_refl _, hdone, rfl⟩ ⟨rs, hdone, rfl, rfl⟩
  | case2 stream rest hread =>
    rw [runStdio_of_none hread, List.append_nil]
    exact .pure ⟨done, rs, List.prefix_refl _, hdone, rfl⟩ ⟨rs, hdone, rfl, rfl⟩
  | case3 stream raw rest hread ih =>
    have hrun : runStdio (fun n => supplies (done.length + n)) stream =
        serve raw (supplies done.length) >>= fun _ =>
          runStdio (fun n => supplies ((done ++ [raw]).length + n)) rest := by
      rw [runStdio_of_some hread]
      simp only [List.length_append, List.length_singleton, Nat.add_zero, Nat.add_assoc,
        Nat.add_comm 1]
    have hpre : done ++ [raw] <+: done ++ raw :: (messages rest).1 :=
      ⟨(messages rest).1, List.append_assoc ..⟩
    rw [hrun]
    refine .bind (tells_serve ?_ (fun rs' hanswer => ?_) fun rs' hanswer => ⟨(), rfl, ?_⟩)
    · exact ⟨done, rs, List.prefix_append _ _, hdone, rfl⟩
    · exact ⟨done ++ [raw], rs ++ rs', hpre, hdone.snoc hanswer, (List.map_append ..).symm⟩
    · have hrest := ih (hdone.snoc hanswer)
      rwa [List.append_assoc, List.singleton_append, List.map_append] at hrest

omit [Primitives] [Serde] in
theorem messages_frames (frames : List Frame) :
    messages (frames.flatMap Frame.bytes) = (frames.map Frame.body, .ok ()) := by
  induction frames with
  | nil =>
    rw [messages]
    have hread : readMcpMessage ([] : Bytes) = .ok (none, []) := reads_frames []
    split <;> simp_all
  | cons frame frames ih =>
    have hread := readMcpMessage_frame frame (frames.flatMap Frame.bytes)
    rw [List.flatMap_cons, messages]
    split
    · simp_all
    · simp_all
    · next raw rest hread' =>
      cases hread.symm.trans hread'
      rw [ih]
      rfl

omit [Primitives] in
/-- What is written is read back, response by response. -/
theorem messages_written {rs : List (JsonRpcResponse Value)}
    (hfits : ∀ r ∈ rs, (toVec r).length ≤ maxMcpMessageBytes) :
    messages (rs.map written).flatten = (rs.map toVec, .ok ()) := by
  have hframes : ∃ frames : List Frame, frames.flatMap Frame.bytes = (rs.map written).flatten ∧
      frames.map Frame.body = rs.map toVec := by
    induction rs with
    | nil => exact ⟨[], rfl, rfl⟩
    | cons r rs ih =>
      rw [List.forall_mem_cons] at hfits
      obtain ⟨frames, hbytes, hbodies⟩ := ih hfits.2
      have hwritten : writeResponse (fun r : JsonRpcResponse Value => .ok (toVec r)) r =
          .ok (Frame.headed [] responseHeader [] .crlf (toVec r) hfits.1).bytes :=
        writeResponse_frame rfl hfits.1
      have hframe : written r = (Frame.headed [] responseHeader [] .crlf (toVec r) hfits.1).bytes :=
        Except.ok.inj hwritten
      refine ⟨.headed [] responseHeader [] .crlf (toVec r) hfits.1 :: frames, ?_, ?_⟩
      · rw [List.flatMap_cons, hbytes, List.map_cons, List.flatten_cons, hframe]
      · rw [List.map_cons, hbodies]
        rfl
  obtain ⟨frames, hbytes, hbodies⟩ := hframes
  rw [← hbytes, ← hbodies]
  exact messages_frames frames

/-- **Every request gets its answer.** Whatever the stream holds and
whatever other processes write meanwhile: what the server has written at
any point is one response to each message it has read that is no
notification, in their order and each under the id of its request; where
it has ended, all messages of the stream are answered, and it ended as the
stream does. A reader of what was written finds the responses, where none
is longer than a reader takes. -/
theorem requests_answered {beside : Datadir → Datadir → Prop} {d : Datadir} {stream : Bytes}
    {supplies : ℕ → Supply} {evs : List (Option (Event Call Bytes))} {z : Datadir × Task Unit}
    (hrun : Run (Proc.Serving beside) (d, runStdio supplies stream) evs z) :
    ∃ raws rs, raws <+: (messages stream).1 ∧ Answers supplies raws rs ∧
      Proc.said evs = rs.map written ∧
      (∀ r, z.2 = Proc.ofExcept r → raws = (messages stream).1 ∧ r = (messages stream).2) ∧
      ((∀ r ∈ rs, (toVec r).length ≤ maxMcpMessageBytes) →
        messages (Proc.said evs).flatten = (rs.map toVec, .ok ())) := by
  have htells := tells_runStdio supplies stream .nil
  simp only [List.length_nil, Nat.zero_add, List.nil_append] at htells
  have hnow := htells.run hrun
  by_cases hended : ∃ r, z.2 = Proc.ofExcept r
  · obtain ⟨r, hr⟩ := hended
    obtain ⟨rs, hanswers, hsaid, hfin⟩ := hnow.ends hr
    refine ⟨_, rs, List.prefix_refl _, hanswers, hsaid, fun r' hr' => ⟨rfl, ?_⟩, fun hfits => ?_⟩
    · cases r <;> cases r' <;> cases hr.symm.trans hr' <;> exact hfin
    · rw [hsaid]
      exact messages_written hfits
  · obtain ⟨raws, rs, hpre, hanswers, hsaid⟩ := hnow.now
    refine ⟨raws, rs, hpre, hanswers, hsaid, fun r hr => absurd ⟨r, hr⟩ hended, fun hfits => ?_⟩
    rw [hsaid]
    exact messages_written hfits

end Server

/-! ## Three messages -/

section Sample

open Json (num str obj)

attribute [local instance] simulated simulatedSerde

/-- A message under the header that the server itself writes. -/
def headed (body : Bytes) (hfits : body.length ≤ maxMcpMessageBytes) : Frame :=
  .headed [] responseHeader [] .crlf body hfits

/-- A request, as a client writes it. -/
def requestText (id : ℤ) (method : String) (params : Json) : Bytes :=
  (obj [("jsonrpc", str "2.0"), ("id", num id), ("method", str method), ("params", params)]).compact

/-- A notification, as a client writes it. -/
def notificationText (method : String) : Bytes :=
  (obj [("jsonrpc", str "2.0"), ("method", str method)]).compact

/-- A request, a notification, and what is neither. -/
def conversation : List Frame :=
  [headed (requestText 1 "ping" (obj [])) (by decide +kernel),
    headed (notificationText "notifications/initialized") (by decide +kernel),
    headed (utf8 "x") (by decide +kernel)]

/-- What requests are given, the same each time. -/
def sampleSupply (n : ℕ) : Supply where
  now := Int64.ofNat n
  raw := List.replicate 32 7
  nonce := List.replicate 24 9

theorem requests_answered_conversation :
    ∃ evs z, Run (Proc.Serving fun _ _ => False)
        (({} : Datadir), runStdio sampleSupply (conversation.flatMap Frame.bytes)) evs z ∧
      ∃ rs, Answers sampleSupply (conversation.map Frame.body) rs ∧
        Proc.said evs = rs.map written := by
  have hstart : Run (Proc.Serving fun _ _ => False)
    (({} : Datadir), runStdio sampleSupply (conversation.flatMap Frame.bytes)) [] _ := .nil _
  obtain ⟨evs, hrun⟩ := Proc.exists_run_solo hstart
  obtain ⟨raws, rs, -, hanswers, hsaid, hended, -⟩ := requests_answered hrun
  obtain ⟨rfl, -⟩ := hended _ rfl
  rw [messages_frames] at hanswers
  exact ⟨evs, _, hrun, rs, hanswers, hsaid⟩

end Sample

end Mcp

end Embernet
