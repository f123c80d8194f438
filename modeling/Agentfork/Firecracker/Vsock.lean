import Mathlib.Data.Rat.Defs
import Mathlib.Algebra.Order.Ring.Rat
import Agentfork.Library.Base64
import Agentfork.Library.Framing

/-! # The exec channel of a guest

The host's client and the guest's agent speak one line of JSON each over a byte
stream. The stream comes in reads, and what an end makes of them is a function of
the list of its reads; the handshake before it is left out.

What the two ends take from Python's own library is a parameter. -/

namespace Agentfork.Firecracker

open Framing (newline)

/-- What `json.loads` makes of `NaN`, `Infinity` and `-Infinity`. -/
inductive NonFinite where
  | nan
  | infinity
  | minusInfinity
  deriving DecidableEq, Repr

/-- A value as `json` knows it; a number stands for the int or the finite float that it is. -/
inductive Json where
  | null
  | bool (value : Bool)
  | number (value : ℚ)
  | nonFinite (value : NonFinite)
  | string (text : String)
  | array (items : List Json)
  | object (members : List (String × Json))

/-- `bool(value)` -/
def Json.truthy : Json → Bool
  | .null => false
  | .bool value => value
  | .number value => decide (value ≠ 0)
  | .nonFinite _ => true
  | .string text => decide (text ≠ "")
  | .array items => !items.isEmpty
  | .object members => !members.isEmpty

/-- The two kinds of `ValueError` that `json.loads` raises on bytes, with their texts. -/
inductive LoadsFault where
  | jsonDecodeError (message : String)
  | unicodeDecodeError (message : String)
  deriving DecidableEq, Repr

def LoadsFault.message : LoadsFault → String
  | .jsonDecodeError message | .unicodeDecodeError message => message

structure Python where
  /-- `json.dumps(value).encode()` -/
  dumps : Json → List UInt8
  /-- `json.loads(line)` -/
  loads : List UInt8 → Except LoadsFault Json
  str : Json → String
  reprBytes : List UInt8 → String
  reprReply : List (String × Json) → String
  /-- the text of the `TypeError` for `value["argv"]` when the value is no object -/
  notSubscriptable : Json → String
  /-- the text of the `TypeError` for `base64.b64decode(value)` when the value is no string -/
  notDecodable : Json → String

/-- A value that `json` writes on one line and reads back. -/
structure Python.Inverts (python : Python) (value : Json) : Prop where
  inverse : python.loads (python.dumps value) = .ok value
  oneLine : newline ∉ python.dumps value
  nonempty : python.dumps value ≠ []

/-! ## The client on the host -/

/-- The most that a line may have, on either end: 64 MiB -/
def maxLine : Nat := 64 * 1024 * 1024

/-- The most that a read may have. -/
def recvSize : Nat := 65536

inductive ExecFault where
  | valueError (message : String)
  | vsockError (message : String)
  deriving DecidableEq, Repr

/-- What `exec` returns; an exit code and a flag are what the reply has for them. -/
structure ExecResult where
  exitCode : Json
  stdout : List UInt8
  stderr : List UInt8
  timedOut : Json

namespace VsockExecClient

/-- `_read_line` -/
def readLine (limit : Nat) (reads : List (List UInt8)) : Except ExecFault (List UInt8) :=
  match Framing.readLine limit reads with
  | .line bytes trailing =>
    if trailing = [] then .ok bytes else .error (.vsockError "unexpected data after response line")
  | .closed _ => .error (.vsockError "peer closed the connection mid-line")
  | .oversized => .error (.vsockError s!"response line exceeds {limit} bytes")

/-- The bytes that `sendall` gets for a value. -/
def sentLine (python : Python) (value : Json) : List UInt8 := python.dumps value ++ [newline]

/-- The request is sent, and the agent answers with some reads. -/
def roundtrip (python : Python) (answer : List UInt8 → List (List UInt8)) (request : Json) :
    Except ExecFault (List (String × Json)) := do
  let line ← readLine maxLine (answer (sentLine python request))
  match python.loads line with
  | .error (.jsonDecodeError _) => .error (.vsockError s!"malformed agent reply: {python.reprBytes (line.take 80)}")
  | .error (.unicodeDecodeError message) => .error (.valueError message)
  | .ok (.object reply) =>
    match reply.lookup "error" with
    | some error => .error (.vsockError s!"guest agent error: {python.str error}")
    | none => .ok reply
  | .ok _ => .error (.vsockError s!"agent reply was not a JSON object: {python.reprBytes (line.take 80)}")

/-- The request that `exec` makes of its arguments. -/
def request (argv : List String) (timeoutS : Option ℚ) (stdin : Option (List UInt8)) : Except ExecFault Json :=
  if argv = [] then .error (.valueError "argv must not be empty")
  else .ok (.object
    ([("argv", .array (argv.map .string)), ("timeout_s", (timeoutS.map .number).getD .null)] ++
      (stdin.map fun data => ("stdin", .string (String.ofList (Base64.encode data)))).toList))

/-- `base64.b64decode(reply[key])`, `none` for what it raises -/
def decoded (reply : List (String × Json)) (key : String) : Option (List UInt8) :=
  match reply.lookup key with
  | some (.string text) => (Base64.decode text.toList).toOption
  | _ => none

def exec (python : Python) (answer : List UInt8 → List (List UInt8)) (argv : List String) (timeoutS : Option ℚ)
    (stdin : Option (List UInt8)) : Except ExecFault ExecResult := do
  let reply ← roundtrip python answer (← request argv timeoutS stdin)
  match reply.lookup "exit_code", decoded reply "stdout", decoded reply "stderr" with
  | some exitCode, some stdout, some stderr =>
    .ok ⟨exitCode, stdout, stderr, (reply.lookup "timed_out").getD (.bool false)⟩
  | _, _, _ =>
    .error (.vsockError (String.ofList (s!"incomplete agent exec reply: {python.reprReply reply}".toList.take 200)))

end VsockExecClient

/-! ## The agent in the guest -/

/-- What the agent starts. -/
structure Launch where
  argv : List String
  /-- the bytes that are written to the command's standard input, which is then
  closed; without them it is the agent's own -/
  stdin : Option (List UInt8)
  timeoutS : Option ℚ
  detach : Bool
  deriving DecidableEq

/-- How a command has ended, after its timeout or before. -/
structure Completion where
  returncode : Int
  stdout : List UInt8
  stderr : List UInt8
  timedOut : Bool

/-- `subprocess.Popen` and what follows; an error has its text. -/
structure Guest where
  run : Launch → Except String Completion
  /-- the pid and the path of the log -/
  runDetached : List String → Except String (Nat × String)

inductive Served where
  /-- the connection is closed without a reply -/
  | nothing
  | replied (reply : Json)
  | started (launch : Launch)

namespace GuestAgent

/-- `_read_line`: `None` at the end of a stream that has no bytes. -/
def readLine (limit : Nat) (reads : List (List UInt8)) : Except ExecFault (Option (List UInt8)) :=
  match Framing.readLine limit reads with
  | .line bytes _ => .ok (some bytes)
  | .closed bytes => .ok (if bytes = [] then none else some bytes)
  | .oversized => .error (.valueError s!"request line exceeds {limit} bytes")

def errorReply (text : String) : Json := .object [("error", .string text)]

def badRequest (text : String) : Json := errorReply s!"bad request: {text}"

def decodeStdin (python : Python) : Json → Except String (Option (List UInt8))
  | .string text => if text = "" then .ok none else (Base64.decode text.toList).map some
  | value => if value.truthy then .error (python.notDecodable value) else .ok none

def argvStrings : List Json → Option (List String)
  | [] => some []
  | .string arg :: rest => if arg = "" then none else (argvStrings rest).map (arg :: ·)
  | _ => none

def checkArgv (argv : Json) : Except String (List String) :=
  let refused := .error "argv must be a non-empty list of non-empty strings"
  match argv with
  | .array [] => refused
  | .array items => ((argvStrings items).map .ok).getD refused
  | _ => refused

def checkTimeout : Json → Except String (Option ℚ)
  | .null => .ok none
  | .number value => if value ≤ 0 then .error "timeout_s must be a positive number or null" else .ok (some value)
  -- no time is after infinity, and none is compared with NaN
  | .nonFinite .infinity | .nonFinite .nan => .ok none
  | _ => .error "timeout_s must be a positive number or null"

/-- What `handle_connection` reads from a request, or the text of the error it raises. -/
def launchOf (python : Python) : Json → Except String Launch
  | .object members =>
    match members.lookup "argv" with
    | none => .error "'argv'"
    | some argv => do
      let detach := ((members.lookup "detach").getD (.bool false)).truthy
      let stdin ← decodeStdin python ((members.lookup "stdin").getD .null)
      let argv ← checkArgv argv
      let timeoutS ← checkTimeout ((members.lookup "timeout_s").getD .null)
      if detach ∧ stdin.getD [] ≠ [] then .error "stdin and detach are mutually exclusive"
      else .ok ⟨argv, stdin, timeoutS, detach⟩
  | value => .error (python.notSubscriptable value)

/-- The request is refused, or its command is started. -/
def start : Except String Launch → Served
  | .error text => .replied (badRequest text)
  | .ok launch =>
    if launch.argv.any fun arg => Char.ofNat 0 ∈ arg.toList then
      -- only the other branch of `handle_connection` expects a `ValueError` of `Popen`
      if launch.detach then .nothing else .replied (errorReply "spawn failed: embedded null byte")
    else .started launch

/-- `handle_connection` until the command is started -/
def serve (python : Python) (reads : List (List UInt8)) : Served :=
  match Framing.readLine maxLine reads with
  | .oversized => .replied (badRequest s!"request line exceeds {maxLine} bytes")
  -- a line may also end with the stream
  | .closed line | .line line _ =>
    if line = [] then .nothing
    else
      match python.loads line with
      | .error fault => .replied (badRequest fault.message)
      | .ok request => start (launchOf python request)

def completionMembers (completion : Completion) : List (String × Json) :=
  [("exit_code", .number completion.returncode),
    ("stdout", .string (String.ofList (Base64.encode completion.stdout))),
    ("stderr", .string (String.ofList (Base64.encode completion.stderr))),
    ("timed_out", .bool completion.timedOut)]

def completionReply (completion : Completion) : Json := .object (completionMembers completion)

/-- The reply of `handle_connection`, if there is one. -/
def reply (python : Python) (guest : Guest) (reads : List (List UInt8)) : Option Json :=
  match serve python reads with
  | .nothing => none
  | .replied reply => some reply
  | .started launch =>
    if launch.detach then
      match guest.runDetached launch.argv with
      | .error text => some (errorReply s!"spawn failed: {text}")
      | .ok (pid, log) => some (.object [("detached", .bool true), ("pid", .number pid), ("log", .string log)])
    else
      match guest.run launch with
      | .error text => some (errorReply s!"spawn failed: {text}")
      | .ok completion => some (completionReply completion)

/-- The bytes that `handle_connection` sends. -/
def handleConnection (python : Python) (guest : Guest) (reads : List (List UInt8)) : List UInt8 :=
  match reply python guest reads with
  | none => []
  | some reply => python.dumps reply ++ [newline]

end GuestAgent

end Agentfork.Firecracker
