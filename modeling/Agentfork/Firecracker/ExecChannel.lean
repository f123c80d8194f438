import Agentfork.Firecracker.Vsock

/-! # What passes over the exec channel

A request and a result arrive as they were sent, however the stream cuts them. The
agent starts no command with an empty argument. -/

namespace Agentfork.Firecracker

open Framing (newline Cuts)

variable {python : Python}

/-! ## A library for plain values

What `json` writes for values whose texts need no escapes and whose numbers are
integers. It reads back the values that it is told. -/

mutual

def Json.text : Json → List Char
  | .null => "null".toList
  | .bool value => (if value then "true" else "false").toList
  | .number value => (if value.num < 0 then ['-'] else []) ++ Nat.toDigits 10 value.num.natAbs
  | .nonFinite .nan => "NaN".toList
  | .nonFinite .infinity => "Infinity".toList
  | .nonFinite .minusInfinity => "-Infinity".toList
  | .string text => '"' :: text.toList ++ ['"']
  | .array items => '[' :: textItems items ++ [']']
  | .object members => '\x7b' :: textMembers members ++ ['\x7d']

def Json.textItems : List Json → List Char
  | [] => []
  | [item] => item.text
  | item :: rest => item.text ++ [',', ' '] ++ textItems rest

def Json.textMembers : List (String × Json) → List Char
  | [] => []
  | [member] => textMember member
  | member :: rest => textMember member ++ [',', ' '] ++ textMembers rest

def Json.textMember : String × Json → List Char
  | (key, value) => '"' :: key.toList ++ ['"', ':', ' '] ++ value.text

end

def plainPython (values : List Json) : Python where
  dumps value := value.text.flatMap String.utf8EncodeChar
  loads line :=
    match values.find? fun value => value.text.flatMap String.utf8EncodeChar = line with
    | some value => .ok value
    | none => .error (.jsonDecodeError "Expecting value: line 1 column 1 (char 0)")
  str value := String.ofList value.text
  reprBytes line := s!"{line}"
  reprReply reply := String.ofList (Json.object reply).text
  notSubscriptable _ := "'NoneType' object is not subscriptable"
  notDecodable _ := "argument should be a bytes-like object or ASCII string, not 'int'"

/-! ## Requests -/

namespace GuestAgent

open VsockExecClient (request sentLine)

end GuestAgent

/-! ## Results -/

namespace VsockExecClient

open GuestAgent (completionMembers completionReply handleConnection serve)

theorem readLine_sent {value : Json} {reads : List (List UInt8)} (inverts : python.Inverts value)
    (small : (python.dumps value).length ≤ maxLine) (cuts : Cuts recvSize (sentLine python value) reads) :
    readLine maxLine reads = .ok (python.dumps value) := by
  unfold readLine
  rw [Framing.readLine_line cuts inverts.oneLine small]
  rfl

theorem readLine_open {limit : Nat} {reads : List (List UInt8)} (noNewline : newline ∉ reads.flatten) :
    ∃ message, readLine limit reads = .error (.vsockError message) := by
  unfold readLine Framing.readLine
  have noLine : (∃ bytes, Framing.readOn limit [] reads = .closed bytes) ∨ Framing.readOn limit [] reads = .oversized :=
    Framing.readOn_open noNewline
  obtain ⟨bytes, closed⟩ | oversized := noLine
  · exact ⟨_, by rw [closed]⟩
  · exact ⟨_, by rw [oversized]⟩

theorem decoded_encode {reply : List (String × Json)} {key : String} {data : List UInt8}
    (stored : reply.lookup key = some (.string (String.ofList (Base64.encode data)))) :
    decoded reply key = some data := by
  unfold decoded
  rw [stored]
  change (Base64.decode (String.ofList (Base64.encode data)).toList).toOption = some data
  rw [String.toList_ofList, Base64.decode_encode]
  rfl

theorem roundtrip_ok {answer : List UInt8 → List (List UInt8)} {sent : Json} {line : List UInt8}
    {reply : List (String × Json)} (arrives : readLine maxLine (answer (sentLine python sent)) = .ok line)
    (loads : python.loads line = .ok (.object reply)) (noError : reply.lookup "error" = none) :
    roundtrip python answer sent = .ok reply := by
  simp only [roundtrip, arrives, loads, noError, bind, Except.bind]

theorem exec_ok {answer : List UInt8 → List (List UInt8)} {argv : List String} {timeoutS : Option ℚ}
    {stdin : Option (List UInt8)} {sent : Json} {reply : List (String × Json)} {exitCode : Json}
    {stdout stderr : List UInt8} (called : request argv timeoutS stdin = .ok sent)
    (replied : roundtrip python answer sent = .ok reply) (exited : reply.lookup "exit_code" = some exitCode)
    (stdoutDecodes : decoded reply "stdout" = some stdout) (stderrDecodes : decoded reply "stderr" = some stderr) :
    exec python answer argv timeoutS stdin =
      .ok ⟨exitCode, stdout, stderr, (reply.lookup "timed_out").getD (.bool false)⟩ := by
  simp only [exec, called, replied, exited, stdoutDecodes, stderrDecodes, bind, Except.bind]

/-- The result of a call is what the agent says of the command that it has run,
however the reply is cut; a reply that breaks off is a `VsockError`. -/
theorem exec_result_arrives {argv : List String} {timeoutS : Option ℚ} {stdin : Option (List UInt8)} {sent : Json}
    {answer : List UInt8 → List (List UInt8)} (called : request argv timeoutS stdin = .ok sent) :
    (∀ guest reads launch completion, serve python reads = .started launch → launch.detach = false →
      guest.run launch = .ok completion → python.Inverts (completionReply completion) →
      (python.dumps (completionReply completion)).length ≤ maxLine →
      Cuts recvSize (handleConnection python guest reads) (answer (sentLine python sent)) →
        exec python answer argv timeoutS stdin =
          .ok ⟨.number completion.returncode, completion.stdout, completion.stderr, .bool completion.timedOut⟩) ∧
    (newline ∉ (answer (sentLine python sent)).flatten →
      ∃ message, exec python answer argv timeoutS stdin = .error (.vsockError message)) := by
  constructor
  · intro guest reads launch completion started attached ran inverts small cuts
    have replied : handleConnection python guest reads = sentLine python (completionReply completion) := by
      unfold handleConnection GuestAgent.reply
      rw [started]
      simp [attached, ran, sentLine]
    rw [replied] at cuts
    have received : roundtrip python answer sent = .ok (completionMembers completion) :=
      roundtrip_ok (readLine_sent inverts small cuts) inverts.inverse rfl
    have stdoutDecodes : decoded (completionMembers completion) "stdout" = some completion.stdout := decoded_encode rfl
    have stderrDecodes : decoded (completionMembers completion) "stderr" = some completion.stderr := decoded_encode rfl
    rw [exec_ok called received rfl stdoutDecodes stderrDecodes]
    rfl
  · intro noNewline
    obtain ⟨message, broken⟩ : ∃ message, readLine maxLine (answer (sentLine python sent)) = .error (.vsockError message) :=
      readLine_open noNewline
    refine ⟨message, ?_⟩
    unfold exec roundtrip
    rw [called]
    change Except.bind (Except.bind (readLine maxLine (answer (sentLine python sent))) _) _ = _
    rw [broken]
    rfl

/-- A command that has written "hi" and exits with 3. -/
def hiCompletion : Completion := ⟨3, [104, 105, 10], [], false⟩

def hiGuest : Guest := ⟨fun _ => .ok hiCompletion, fun _ => .error "no log"⟩

def hiRequest : Json := .object [("argv", .array [.string "hi"]), ("timeout_s", .null)]

def hiPython : Python := plainPython [hiRequest, completionReply hiCompletion]

/-- The agent's reply, cut after the twentieth byte. -/
def hiAnswer (line : List UInt8) : List (List UInt8) :=
  let reply := handleConnection hiPython hiGuest [line]
  [reply.take 20, reply.drop 20]

theorem hiCompletion_arrives : exec hiPython hiAnswer ["hi"] none none =
    .ok ⟨.number 3, [104, 105, 10], [], .bool false⟩ := by
  have called : request ["hi"] none none = .ok hiRequest := rfl
  have inverts : hiPython.Inverts (completionReply hiCompletion) := ⟨rfl, by decide, by decide⟩
  have cuts : Cuts recvSize (handleConnection hiPython hiGuest [sentLine hiPython hiRequest])
      (hiAnswer (sentLine hiPython hiRequest)) := ⟨by decide, by decide, by decide⟩
  exact (exec_result_arrives called).1 hiGuest [sentLine hiPython hiRequest] ⟨["hi"], none, none, false⟩ hiCompletion rfl
    rfl rfl inverts (by decide) cuts

end VsockExecClient

end Agentfork.Firecracker
