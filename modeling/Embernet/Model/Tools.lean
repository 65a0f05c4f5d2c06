import Embernet.Lib.Service
import Embernet.Model.Frames
import Embernet.Model.Mcp
/-!
# MCP tools — what a local client can ask of a node

`mcp.rs`, behind the framing. A request is answered before the next is
read. Whatever a tool fails with is an answer too: only the stream itself
ends the server. Between two calls on the store anything else may run.

JSON in general is the library's: a request may hold any value under its
id and its parameters. `Serde` is what this file takes of it.
-/

set_option autoImplicit false

namespace Embernet

/-- `Message::new_text`, at the clock's `now`. -/
def Message.newText (now : Int64) (title : Option String) (tags : List String) (text : String)
    (refs : List String) : Message where
  ts := now
  type := .post
  title
  tags
  refs
  body := .text text

namespace Mcp

/-! ## Requests and responses -/

/-- `JSONRPC_VERSION`. -/
def jsonrpcVersion : String := "2.0"

/-- `MCP_PROTOCOL_VERSION`. -/
def mcpProtocolVersion : String := "2024-11-05"

/-- A request, of which `jsonrpc` and the id may be missing. -/
structure JsonRpcRequest (Value : Type) where
  jsonrpc : Option String
  id : Option Value
  method : String
  params : Value

/-- An error under its JSON-RPC code. -/
structure JsonRpcError where
  code : ℤ
  message : String
  /-- The `details` of the data. -/
  details : Option String
  deriving DecidableEq

/-- What `tail_channel` takes. -/
structure TailChannelArgs where
  channel : String
  limit : ℕ
  deriving DecidableEq

/-- What `post_message` takes. -/
structure PostMessageArgs where
  channel : String
  title : Option String
  body : String
  tags : List String
  refs : List String
  deriving DecidableEq

/-- An argument of a tool, as its schema has it. -/
structure Argument where
  name : String
  types : List String
  items : Option String := none
  minimum : Option ℕ := none
  description : String
  deriving DecidableEq

/-- A tool, as `tools/list` lists it. -/
structure ToolDefinition where
  name : String
  description : String
  arguments : List Argument
  required : List String
  deriving DecidableEq

/-- What a tool returns. -/
inductive Payload
  | channels (channels : List String)
  | messages (channel : String) (messages : List Envelope)
  | posted (id channel : String) (envelope : Envelope)
  deriving DecidableEq

/-- The result of a request. The content of a tool's result is its payload,
once as a text and once as it is. -/
inductive Outcome
  | initialized (protocolVersion name version : String)
  | pong
  | tools (definitions : List ToolDefinition)
  | content (payload : Payload)
  deriving DecidableEq

/-- A response, under the id of its request. -/
structure JsonRpcResponse (Value : Type) where
  jsonrpc : String := jsonrpcVersion
  id : Value
  result : Option Outcome
  error : Option JsonRpcError

/-- The JSON library: its values, and the types it reads and writes. -/
class Serde where
  Value : Type
  null : Value
  /-- `json!({})`. -/
  emptyObject : Value
  /-- `Value::get`. -/
  get : Value → String → Option Value
  asStr : Value → Option String
  /-- `from_slice::<JsonRpcRequest>`, which takes an id of `null` for no id. -/
  readRequest : Bytes → Except String (JsonRpcRequest Value)
  /-- `from_value::<TailChannelArgs>`. -/
  readTailArgs : Value → Except String TailChannelArgs
  /-- `from_value::<PostMessageArgs>`. -/
  readPostArgs : Value → Except String PostMessageArgs
  /-- `to_vec`, which does not fail on a response. -/
  toVec : JsonRpcResponse Value → Bytes

open Serde

/-- `-32600`, as JSON-RPC has it. -/
def invalidRequest (message : String) : JsonRpcError := ⟨-32600, message, none⟩

/-- `-32601`. -/
def methodNotFound (message : String) : JsonRpcError := ⟨-32601, message, none⟩

/-- `-32602`. -/
def invalidParams (message : String) : JsonRpcError := ⟨-32602, message, none⟩

/-- `tool_error`, which says the outermost of what an error says. -/
def toolError (e : Error) : JsonRpcError := ⟨-32000, "Tool execution failed", some (e.headD "")⟩

/-- What the server says of itself. -/
def initializeResult : Outcome := .initialized mcpProtocolVersion "embernet" "0.1.0"

/-- The argument every tool of a channel has. -/
def channelArgument : Argument where
  name := "channel"
  types := ["string"]
  description := "Channel name, for example tech/linux."

/-- The three tools, and the schema of each. -/
def toolDefinitions : List ToolDefinition :=
  [{ name := "list_channels"
     description := "List available Embernet channel names under the configured data directory."
     arguments := []
     required := [] },
   { name := "tail_channel"
     description := "Read recent verified Envelope objects from a channel log."
     arguments :=
       [channelArgument,
        { name := "limit", types := ["integer"], minimum := some 0
          description := "Maximum number of recent messages to return." }]
     required := ["channel", "limit"] },
   { name := "post_message"
     description := "Create and append a signed text post using the local Embernet identity."
     arguments :=
       [channelArgument,
        { name := "title", types := ["string", "null"]
          description := "Optional message title. Use null when absent." },
        { name := "body", types := ["string"], description := "Text body to store as Body::Text." },
        { name := "tags", types := ["array"], items := some "string"
          description := "Optional tags. Defaults to an empty array." },
        { name := "refs", types := ["array"], items := some "string"
          description := "Optional references. Defaults to an empty array." }]
     required := ["channel", "title", "body"] }]

/-! ## The tools -/

/-- What a request is given: the clock, and random bytes. -/
structure Supply where
  now : Int64
  raw : Bytes
  nonce : Bytes

/-- The calls of a tool on the store. -/
inductive Call
  | ensureChannelLogExists
  | loadIdentity
  | listReadableChannels
  | authorizeRead
  | readChannelTail
  | decryptEnvelope
  | signMessageForChannel
  | appendMessage
  deriving DecidableEq

/-- What the server runs: calls on the store, and what it writes. -/
abbrev Task (α : Type) := Proc Datadir Error Call Bytes α

/-- A call that only reads. -/
def ask {α : Type} (l : Call) (q : ReadM α) : Task α := Proc.call l (liftM q)

/-- `load_identity`. -/
def loadIdentity : ReadM KeypairFile := fun d =>
  context "failed to load identity keypair at keys/identity.json" (Embernet.loadIdentity d)

/-- `ensure_channel_log_exists`. -/
def ensureChannelLogExists (chan : ChannelRef) : ReadM Unit := fun d =>
  bailIf (d.channels[chan.fullName]?.bind (·.log) = none)
    [s!"channel does not exist: {chan.fullName}"]

section Tools

variable [Primitives]

/-- `list_channels`. -/
def listChannels : Task Payload := do
  let identity ← ask .loadIdentity loadIdentity
  let channels ← ask .listReadableChannels (listReadableChannels (some identity.publicKey))
  pure (.channels channels)

/-- Envelopes, each decrypted by itself. -/
def decryptEnvelopes : List Envelope → Task (List Envelope)
  | [] => pure []
  | env :: envs => do
    let plain ← ask .decryptEnvelope (decryptEnvelope env)
    let plains ← decryptEnvelopes envs
    pure (plain :: plains)

/-- `tail_channel`. -/
def tailChannel (args : TailChannelArgs) : Task Payload := do
  let chan ← (ChannelRef.parse args.channel : Except Error ChannelRef)
  ask .ensureChannelLogExists (ensureChannelLogExists chan)
  let identity ← ask .loadIdentity loadIdentity
  ask .authorizeRead (authorizeRead chan identity.publicKey)
  let envelopes ← Proc.call .readChannelTail (readChannelTail chan args.limit false)
  let messages ← decryptEnvelopes envelopes
  pure (.messages chan.fullName messages)

/-- `post_message`. -/
def postMessage (args : PostMessageArgs) (supply : Supply) : Task Payload := do
  let chan ← (ChannelRef.parse args.channel : Except Error ChannelRef)
  ask .ensureChannelLogExists (ensureChannelLogExists chan)
  let keypair ← ask .loadIdentity loadIdentity
  let msg := Message.newText supply.now args.title args.tags args.body args.refs
  let env ← Proc.call .signMessageForChannel
    (signMessageForChannel chan keypair msg supply.raw supply.nonce)
  let id ← Proc.call .appendMessage (appendMessage chan env)
  pure (.posted id chan.fullName env)

/-- A tool with its arguments. -/
inductive Tool
  | listChannels
  | tailChannel (args : TailChannelArgs)
  | postMessage (args : PostMessageArgs)
  | unknown (name : String)

/-- `handle_tool_call`, of a tool whose arguments were read. -/
def Tool.run : Tool → Supply → Task Payload
  | .listChannels, _ => Mcp.listChannels
  | .tailChannel args, _ => Mcp.tailChannel args
  | .postMessage args, supply => Mcp.postMessage args supply
  | .unknown name, _ => bail s!"unknown tool: {name}"

end Tools

/-! ## The server -/

variable [Serde]

/-- `parse_args`. -/
def parseArgs {α : Type} (read : Value → Except String α) (value : Value) :
    Except JsonRpcError α :=
  (read value).mapError invalidParams

/-- The tool that the parameters of a call name. -/
def toolOf (params : Value) : Except JsonRpcError Tool := do
  let name ← orBail (invalidParams "tools/call requires params.name")
    ((get params "name").bind asStr)
  let arguments := (get params "arguments").getD emptyObject
  if name = "list_channels" then pure .listChannels
  else if name = "tail_channel" then do
    let args ← parseArgs readTailArgs arguments
    pure (.tailChannel args)
  else if name = "post_message" then do
    let args ← parseArgs readPostArgs arguments
    pure (.postMessage args)
  -- found to be unknown when it is run, so the error is the tool's
  else pure (.unknown name)

variable [Primitives]

/-- `handle_tool_call`. -/
def handleToolCall (params : Value) (supply : Supply) : Task (Except JsonRpcError Outcome) :=
  match toolOf params with
  | .error e => pure (.error e)
  | .ok tool => do
    let payload ← (tool.run supply).attempt
    pure (payload.map Outcome.content |>.mapError toolError)

/-- `handle_request`. -/
def handleRequest (request : JsonRpcRequest Value) (supply : Supply) :
    Task (Except JsonRpcError Outcome) :=
  if request.jsonrpc.getD jsonrpcVersion ≠ jsonrpcVersion then
    pure (.error (invalidRequest "jsonrpc must be \"2.0\""))
  else if request.method = "initialize" then pure (.ok initializeResult)
  else if request.method = "ping" then pure (.ok .pong)
  else if request.method = "tools/list" then pure (.ok (.tools toolDefinitions))
  else if request.method = "tools/call" then handleToolCall request.params supply
  else pure (.error (methodNotFound s!"unknown method: {request.method}"))

/-- The response to a text that is no request. -/
def parseError (details : String) : JsonRpcResponse Value where
  id := null
  result := none
  error := some ⟨-32700, "Parse error", some details⟩

/-- The response to a request. -/
def responseOf (id : Value) : Except JsonRpcError Outcome → JsonRpcResponse Value
  | .ok result => { id, result := some result, error := none }
  | .error e => { id, result := none, error := some e }

/-- A response on the stream. -/
def respond (response : JsonRpcResponse Value) : Task Unit := do
  let bytes ← (writeResponse (fun r => .ok (toVec r)) response : Except Error Bytes)
  Proc.emit bytes

/-- The loop body of `run_stdio`: a message that was read. A request
without an id is a notification, and gets no response. -/
def serve (raw : Bytes) (supply : Supply) : Task Unit :=
  match readRequest raw with
  | .error details => respond (parseError details)
  | .ok request =>
    match request.id with
    -- a notification: nothing is run
    | none => pure ()
    | some id => do
      let result ← handleRequest request supply
      respond (responseOf id result)

omit [Serde] [Primitives] in
/-- What is read is gone from the stream. -/
theorem length_lt_of_readHeaders {contentLength : Option ℕ} {stream raw rest : Bytes}
    (h : readHeaders contentLength stream = .ok (some raw, rest)) :
    rest.length < stream.length := by
  fun_induction readHeaders contentLength stream with
  | case1 => cases h
  | case2 => cases h
  | case3 => cases h
  | case4 contentLength stream hne line hline body hturn =>
    cases h
    exact length_takeLine_lt hne
  | case5 contentLength stream hne line hline hturn =>
    unfold readBody at h
    simp only [bind_eq_ok, pure_eq_ok, Prod.mk.injEq] at h
    obtain ⟨length, -, _, -, -, rfl⟩ := h
    calc ((takeLine stream).2.drop length).length
        ≤ (takeLine stream).2.length := by simp
      _ < stream.length := length_takeLine_lt hne
  | case6 contentLength stream hne line hline length hturn ih =>
    exact (ih h).trans (length_takeLine_lt hne)

/-- `run_stdio`, over what the stream holds in all. -/
def runStdio (supplies : ℕ → Supply) (stream : Bytes) : Task Unit :=
  match _h : readMcpMessage stream with
  | .error e => throw e
  | .ok (none, _) => pure ()
  | .ok (some raw, rest) => do
    serve raw (supplies 0)
    runStdio (fun n => supplies (n + 1)) rest
termination_by stream.length
decreasing_by exact length_lt_of_readHeaders _h

variable {supplies : ℕ → Supply} {stream raw rest : Bytes}

theorem runStdio_of_error {e : Error} (h : readMcpMessage stream = .error e) :
    runStdio supplies stream = throw e := by
  rw [runStdio]
  split <;> simp_all

theorem runStdio_of_none (h : readMcpMessage stream = .ok (none, rest)) :
    runStdio supplies stream = pure () := by
  rw [runStdio]
  split <;> simp_all

theorem runStdio_of_some (h : readMcpMessage stream = .ok (some raw, rest)) :
    runStdio supplies stream =
      serve raw (supplies 0) >>= fun _ => runStdio (fun n => supplies (n + 1)) rest := by
  rw [runStdio]
  split
  · simp_all
  · simp_all
  · next hread =>
    cases h.symm.trans hread
    rfl

end Mcp

end Embernet
