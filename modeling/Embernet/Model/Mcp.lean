import Embernet.Lib.Lines
import Embernet.Model.Peers
import Mathlib.Algebra.Group.Nat.Defs
/-!
# MCP framing — `mcp.rs`

How a message is read off the input stream, and how a response is written.
The stream is the bytes that are left of it. A message is a body of the
length a header gives, or a line that starts with an opening brace.
-/

set_option autoImplicit false

namespace Embernet

namespace Mcp

/-- `MAX_MCP_MESSAGE_BYTES`. -/
def maxMcpMessageBytes : ℕ := 1048576

/-! ## Lines and headers -/

/-- What `read_line` takes, through the first line feed, and what it
leaves. -/
def takeLine : Bytes → Bytes × Bytes
  | [] => ([], [])
  | b :: stream =>
    if b = 0x0a then ([b], stream)
    else (b :: (takeLine stream).1, (takeLine stream).2)

/-- `trim_end_matches(['\r', '\n'])`. -/
def trimLineEnd (line : String) : String :=
  String.ofList (line.toList.reverse.dropWhile fun c => c == '\r' || c == '\n').reverse

/-- `split_once(separator)`. -/
def splitOnce (separator : Char) (s : String) : Option (String × String) :=
  match s.toList.dropWhile (· != separator) with
  | [] => none
  | _ :: value => some (String.ofList (s.toList.takeWhile (· != separator)), String.ofList value)

/-- `eq_ignore_ascii_case`. -/
def eqIgnoreAsciiCase (a b : String) : Bool := toAsciiLowercase a == toAsciiLowercase b

/-- The digits of a number, behind its sign. -/
def unsigned : List Char → List Char
  | '+' :: digits => digits
  | chars => chars

/-- `parse::<usize>()`, of 64 bits. -/
def parseUsize (s : String) : Option ℕ :=
  let digits := unsigned s.toList
  let n := Nat.ofDigitChars 10 digits 0
  if digits ≠ [] ∧ digits.all Char.isDigit ∧ n < 2 ^ 64 then some n else none

/-! ## Reading -/

/-- What a line of the loop comes to. -/
inductive Turn
  /-- The line is the message. -/
  | message (body : Bytes)
  /-- The headers are over. -/
  | over
  /-- The loop goes on, with the length it has so far. -/
  | header (contentLength : Option ℕ)

/-- The loop body of `read_mcp_message`. -/
def turn (contentLength : Option ℕ) (line : String) : Except Error Turn :=
  let trimmed := trimLineEnd line
  if trimmed = "" then pure .over
  -- a message on a line by itself, whatever headers came before it
  else if trimmed.toList.head? = some '{' then do
    bailIf ((utf8 trimmed).length > maxMcpMessageBytes)
      [s!"MCP message exceeds {maxMcpMessageBytes} bytes"]
    pure (.message (utf8 trimmed))
  else
    match splitOnce ':' trimmed with
    | some (name, value) =>
      if eqIgnoreAsciiCase name "Content-Length" then do
        let length ← orBail ["invalid Content-Length header"] (parseUsize (trim value))
        bailIf (length > maxMcpMessageBytes) [s!"MCP message exceeds {maxMcpMessageBytes} bytes"]
        pure (.header (some length))
      else pure (.header contentLength)
    | none => pure (.header contentLength)

/-- What `read_mcp_message` does behind the loop. -/
def readBody (contentLength : Option ℕ) (stream : Bytes) : Except Error (Option Bytes × Bytes) := do
  let length ← orBail ["missing Content-Length header"] contentLength
  bailIf (stream.length < length) ["failed to fill whole buffer"]
  pure (some (stream.take length), stream.drop length)

theorem length_takeLine_lt {stream : Bytes} (h : stream ≠ []) :
    (takeLine stream).2.length < stream.length := by
  induction stream with
  | nil => exact absurd rfl h
  | cons b stream ih =>
    rw [takeLine]
    split
    · simp
    · cases stream with
      | nil => simp [takeLine]
      | cons c stream => exact Nat.lt_succ_of_lt (ih (List.cons_ne_nil _ _))

/-- The loop of `read_mcp_message`, with what it leaves of the stream. -/
def readHeaders (contentLength : Option ℕ) (stream : Bytes) :
    Except Error (Option Bytes × Bytes) :=
  if _ : stream = [] then pure (none, [])
  else
    match fromUtf8 (takeLine stream).1 with
    | none => bail "stream did not contain valid UTF-8"
    | some line =>
      match turn contentLength line with
      | .error e => .error e
      | .ok (.message body) => pure (some body, (takeLine stream).2)
      | .ok .over => readBody contentLength (takeLine stream).2
      | .ok (.header contentLength) => readHeaders contentLength (takeLine stream).2
termination_by stream.length
decreasing_by exact length_takeLine_lt ‹_›

/-- `read_mcp_message`. -/
def readMcpMessage (stream : Bytes) : Except Error (Option Bytes × Bytes) :=
  readHeaders none stream

/-! ## Writing -/

/-- `write_response`, with the library's writer. -/
def writeResponse {Response : Type} (toVec : Response → Except Error Bytes) (response : Response) :
    Except Error Bytes := do
  let body ← toVec response
  pure (utf8 s!"Content-Length: {body.length}\r\n\r\n" ++ body)

end Mcp

end Embernet
