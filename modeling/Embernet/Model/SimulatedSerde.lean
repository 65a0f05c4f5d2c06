import Embernet.Lib.Decode
import Embernet.Model.Simulated
import Embernet.Model.Tools
import Mathlib.Algebra.Group.Int.Defs
import Mathlib.Algebra.Group.Nat.Defs
/-!
# Simulated requests — a JSON library one can evaluate

An instance of `Serde` that writes what `serde_json` writes, and reads the
texts that it writes itself; of any other text it says that it is not a
value. The members of a `Value` are in the order of their names.
-/

set_option autoImplicit false

namespace Embernet

namespace Mcp

open Json (num str arr obj required defaulted asObj asStr asOptStr asStrings asInt)

/-! ## Reading -/

/-- An id of null is no id: the request is a notification. -/
def JsonRpcRequest.ofJson (value : Json) : Option (JsonRpcRequest Json) := do
  let fields ← asObj value
  let jsonrpc ← defaulted fields "jsonrpc" asOptStr none
  let id ← defaulted fields "id" (fun | .null => some none | id => some (some id)) none
  let method ← required fields "method" asStr
  let params ← defaulted fields "params" some .null
  pure { jsonrpc, id, method, params }

/-- Both members must be there. -/
def TailChannelArgs.ofJson (value : Json) : Option TailChannelArgs := do
  let fields ← asObj value
  let channel ← required fields "channel" asStr
  let limit ← required fields "limit" (asInt 0 (2 ^ 64 - 1))
  pure { channel, limit := limit.toNat }

/-- A message may be without a title, tags and references. -/
def PostMessageArgs.ofJson (value : Json) : Option PostMessageArgs := do
  let fields ← asObj value
  let channel ← required fields "channel" asStr
  let title ← defaulted fields "title" asOptStr none
  let body ← required fields "body" asStr
  let tags ← defaulted fields "tags" asStrings []
  let refs ← defaulted fields "refs" asStrings []
  pure { channel, title, body, tags, refs }

/-! ## Writing -/

mutual

/-- The value with the members of its objects in order. -/
def sorted : Json → Json
  | .obj fields => .obj ((sortedFields fields).mergeSort fun a b => decide (a.1 ≤ b.1))
  | .arr xs => .arr (sortedElems xs)
  | .null => .null
  | .num n => .num n
  | .str s => .str s

/-- Each element with its members in order. -/
def sortedElems : List Json → List Json
  | [] => []
  | x :: xs => sorted x :: sortedElems xs

/-- Each member's value with its own in order. -/
def sortedFields : List (String × Json) → List (String × Json)
  | [] => []
  | (k, v) :: fields => (k, sorted v) :: sortedFields fields

end

/-- An object whose members are written already. -/
def writeObject (members : List (String × Bytes)) : Bytes :=
  let texts := members.map fun (k, v) => Json.writeString k ++ 0x3a :: v
  0x7b :: (List.intercalate [0x2c] texts ++ [0x7d])

/-- An array of texts. -/
def writeArray (xs : List Bytes) : Bytes := 0x5b :: (List.intercalate [0x2c] xs ++ [0x5d])

/-- The one boolean that is written. -/
def writeFalse : Bytes := utf8 "false"

/-- The schema of an argument; `type` is a list where there are several. -/
def Argument.toVec (a : Argument) : Bytes :=
  writeObject <|
    [("description", (str a.description).compact)] ++
    a.items.toList.map (fun type => ("items", (obj [("type", str type)]).compact)) ++
    a.minimum.toList.map (fun n => ("minimum", (num n).compact)) ++
    [("type", match a.types with
      | [type] => (str type).compact
      | types => (strings types).compact)]

/-- A tool with the schema of its arguments, which takes no others. -/
def ToolDefinition.toVec (t : ToolDefinition) : Bytes :=
  let properties := t.arguments.mergeSort fun a b => decide (a.name ≤ b.name)
  let required := if t.required = [] then [] else [("required", (strings t.required).compact)]
  let inputSchema := writeObject <|
    [("additionalProperties", writeFalse),
      ("properties", writeObject (properties.map fun a => (a.name, a.toVec)))] ++
    required ++ [("type", (str "object").compact)]
  writeObject
    [("description", (str t.description).compact), ("inputSchema", inputSchema),
      ("name", (str t.name).compact)]

/-- What a tool returns, as the `json!` of the source writes it. -/
def Payload.toJson : Payload → Json
  | .channels names => obj [("channels", strings names)]
  | .messages channel envelopes =>
    obj [("channel", str channel), ("messages", arr (envelopes.map Envelope.toJson))]
  | .posted id channel envelope =>
    obj [("channel", str channel), ("envelope", envelope.toJson), ("id", str id)]

/-- A payload stands in the content as a text, and beside it as it is. -/
def Outcome.toVec : Outcome → Bytes
  | .initialized protocolVersion name version =>
    (obj [("capabilities", obj [("tools", obj [])]), ("protocolVersion", str protocolVersion),
      ("serverInfo", obj [("name", str name), ("version", str version)])]).compact
  | .pong => (obj []).compact
  | .tools definitions => writeObject [("tools", writeArray (definitions.map ToolDefinition.toVec))]
  | .content payload =>
    let structured := (sorted payload.toJson).compact
    let text := (fromUtf8 structured).getD "\x7b\x7d"
    writeObject
      [("content", (arr [obj [("text", str text), ("type", str "text")]]).compact),
        ("isError", writeFalse), ("structuredContent", structured)]

/-- The details are an object of one member. -/
def JsonRpcError.toVec (e : JsonRpcError) : Bytes :=
  (obj <| [("code", num e.code), ("message", str e.message)] ++
    e.details.toList.map fun details => ("data", obj [("details", str details)])).compact

/-- The result or the error, whichever there is. -/
def JsonRpcResponse.toVec (r : JsonRpcResponse Json) : Bytes :=
  writeObject <|
    [("jsonrpc", (str r.jsonrpc).compact), ("id", (sorted r.id).compact)] ++
    r.result.toList.map (fun result => ("result", result.toVec)) ++
    r.error.toList.map fun e => ("error", e.toVec)

/-- The simulated JSON library. -/
@[reducible] noncomputable def simulatedSerde : Serde where
  Value := Json
  null := .null
  emptyObject := obj []
  get value key := (asObj value).bind fun fields => (Json.field fields key).join
  asStr := asStr
  readRequest raw :=
    match (Simulated.readBack id raw).bind JsonRpcRequest.ofJson with
    | some request => .ok request
    | none => .error "expected value at line 1 column 1"
  readTailArgs value :=
    match TailChannelArgs.ofJson value with
    | some args => .ok args
    | none => .error "invalid arguments"
  readPostArgs value :=
    match PostMessageArgs.ofJson value with
    | some args => .ok args
    | none => .error "invalid arguments"
  toVec := JsonRpcResponse.toVec

/-- **A request reads back.** -/
theorem readRequest_compact {value : Json} {request : JsonRpcRequest Json}
    (h : JsonRpcRequest.ofJson value = some request) :
    simulatedSerde.readRequest value.compact = .ok request := by
  have hread : Simulated.readBack id value.compact = some value :=
    Simulated.readBack_compact Function.injective_id value
  show (match (Simulated.readBack id value.compact).bind JsonRpcRequest.ofJson with
    | some request => Except.ok request
    | none => .error _) = _
  rw [hread, Option.bind_some, h]

end Mcp

end Embernet
