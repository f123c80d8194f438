import Agentfork.Firecracker.ExecChannel
import Agentfork.Library.Raising

/-! # One answer for a request

`handle_connection` with all it does besides: what it sends, the log files it makes, the
commands it starts, and that it closes the connection. What its library calls raise is
told by their surroundings. An exception goes up to the first `except` clause that
names its class, so the three parts of the function answer different exceptions. -/

namespace Agentfork.Firecracker.GuestAgent

open Framing (newline)

/-- The exceptions by the clauses that catch them. -/
inductive Raised where
  /-- a ValueError, KeyError or TypeError -/
  | valueError (text : String)
  | osError (text : String)
  /-- any other, such as the RecursionError of `json.loads` or the OverflowError of `communicate` -/
  | uncaught
  deriving DecidableEq, Repr

/-- What `subprocess.Popen` does with an argv of strings. -/
inductive Spawned where
  | started (pid : Nat)
  | osError (text : String)
  | valueError (text : String)
  deriving DecidableEq, Repr

/-- The library and the machine around a connection. -/
structure Surroundings where
  python : Python
  /-- the lines that nest too deep for `json.loads` -/
  tooDeep : List UInt8 → Bool
  /-- the path with its uuid -/
  logPath : String
  /-- the OSError of `open(log_path, "wb")` -/
  openFault : Option String
  popen : List String → Spawned
  /-- a thread that waits for the command can be started -/
  reaps : Bool
  /-- `communicate(input=.., timeout=..)`, after its timeout killed and waited for again -/
  communicate : Option (List UInt8) → Json → Except Raised Completion
  /-- the peer has not vanished -/
  present : Bool

inductive Event where
  | sent (line : List UInt8)
  | logged (path : String)
  | spawned (argv : List String)
  | closed
  deriving DecidableEq, Repr

/-- A part of `handle_connection`, with the events so far. -/
abbrev Act (α : Type) := Raising Raised (List Event) α

def note (event : Event) : Act Unit := modify (· ++ [event])

variable (around : Surroundings)

/-- `json.dumps(reply).encode() + b"\\n"` -/
def replyLine (reply : Json) : List UInt8 := around.python.dumps reply ++ [newline]

/-- `conn.sendall(..)` -/
def sendall (reply : Json) : Act Unit :=
  if around.present then note (.sent (replyLine around reply)) else throw (.osError "[Errno 32] Broken pipe")

def loads (line : List UInt8) : Act Json :=
  if around.tooDeep line then throw .uncaught
  else
    match around.python.loads line with
    | .error fault => throw (.valueError fault.message)
    | .ok request => pure request

/-- `request.get("timeout_s")` -/
def timeoutOf : Json → Json
  | .object members => (members.lookup "timeout_s").getD .null
  | _ => .null

/-- The command of a request and its timeout. -/
def parse (line : List UInt8) : Act (Launch × Json) := do
  let request ← loads around line
  match launchOf around.python request with
  | .error text => throw (.valueError text)
  | .ok launch => pure (launch, timeoutOf request)

/-- Nothing for an empty line and for a request that is refused. -/
def readRequest (reads : List (List UInt8)) : Act (Option (Launch × Json)) :=
  tryCatch
    (match readLine maxLine reads with
    | .error (.valueError text) | .error (.vsockError text) => throw (.valueError text)
    | .ok none | .ok (some []) => pure none
    | .ok (some line) => some <$> parse around line)
    fun
    | .valueError text => do
      sendall around (badRequest text)
      pure none
    | fault => throw fault

def openLog : Act Unit :=
  match around.openFault with
  | some text => throw (.osError text)
  | none => note (.logged around.logPath)

def popen (argv : List String) : Act Nat :=
  match around.popen argv with
  | .started pid => do
    note (.spawned argv)
    pure pid
  | .osError text => throw (.osError text)
  | .valueError text => throw (.valueError text)

def spawnFailed (text : String) : Json := errorReply s!"spawn failed: {text}"

/-- `threading.Thread(target=proc.wait, daemon=True).start()` -/
def reap : Act Unit := if around.reaps then pure () else throw .uncaught

def handleDetached (argv : List String) : Act Unit := do
  let spawned ← tryCatch
    (do
      openLog around
      some <$> popen around argv)
    fun
    | .osError text => do
      sendall around (spawnFailed text)
      pure none
    | fault => throw fault
  match spawned with
  | none => pure ()
  | some pid => do
    reap around
    sendall around (.object [("detached", .bool true), ("pid", .number pid), ("log", .string around.logPath)])

def communicate (stdin : Option (List UInt8)) (timeout : Json) : Act Completion :=
  match around.communicate stdin timeout with
  | .error fault => throw fault
  | .ok completion => pure completion

def handleWaiting (launch : Launch) (timeout : Json) : Act Unit := do
  let spawned ← tryCatch (some <$> popen around launch.argv)
    fun
    | .osError text | .valueError text => do
      sendall around (spawnFailed text)
      pure none
    | fault => throw fault
  match spawned with
  | none => pure ()
  | some _ => do
    let completion ← communicate around launch.stdin timeout
    sendall around (completionReply completion)

def handleRequest (reads : List (List UInt8)) : Act Unit := do
  match ← readRequest around reads with
  | none => pure ()
  | some (launch, timeout) =>
    if launch.detach then handleDetached around launch.argv else handleWaiting around launch timeout

/-- The connection is closed whatever has been raised. -/
def serveConnection (reads : List (List UInt8)) : Act Unit :=
  Raising.andFinally
    (tryCatch (handleRequest around reads) fun
      | .osError _ => pure ()
      | fault => throw fault)
    (note .closed)

/-- The events of a connection whose requests come in these reads. -/
def events (reads : List (List UInt8)) : List Event := ((serveConnection around reads).perform []).2

/-! ## What a connection does, line by line -/

/-- What the agent makes of a line. -/
inductive Reading where
  | tooDeep
  | refused (text : String)
  | accepted (launch : Launch) (timeout : Json)

def reading (line : List UInt8) : Reading :=
  if around.tooDeep line then .tooDeep
  else
    match around.python.loads line with
    | .error fault => .refused fault.message
    | .ok request =>
      match launchOf around.python request with
      | .error text => .refused text
      | .ok launch => .accepted launch (timeoutOf request)

def detachedReply (pid : Nat) : Json :=
  .object [("detached", .bool true), ("pid", .number pid), ("log", .string around.logPath)]

/-- A reply that reaches its peer, if it is there. -/
def replied (reply : Json) : List Event := if around.present then [.sent (replyLine around reply)] else []

def detachedTrace (argv : List String) : List Event :=
  match around.openFault with
  | some text => replied around (spawnFailed text)
  | none => .logged around.logPath ::
    match around.popen argv with
    | .started pid => .spawned argv :: if around.reaps then replied around (detachedReply around pid) else []
    | .osError text => replied around (spawnFailed text)
    | .valueError _ => []

def waitingTrace (launch : Launch) (timeout : Json) : List Event :=
  match around.popen launch.argv with
  | .started _ => .spawned launch.argv ::
    match around.communicate launch.stdin timeout with
    | .ok completion => replied around (completionReply completion)
    | .error _ => []
  | .osError text | .valueError text => replied around (spawnFailed text)

def trace (line : List UInt8) : List Event :=
  match reading around line with
  | .tooDeep => []
  | .refused text => replied around (badRequest text)
  | .accepted launch timeout => if launch.detach then detachedTrace around launch.argv else waitingTrace around launch timeout

variable {around} {before : List Event} {line : List UInt8} {reads : List (List UInt8)}

open Raising

@[simp] theorem perform_note (event : Event) : (note event).perform before = (.ok (), before ++ [event]) := rfl

/-- A reply is sent, or its OSError goes up to the last clause. -/
theorem perform_sendall (reply : Json) : (sendall around reply).perform before =
    (if around.present then .ok () else .error (.osError "[Errno 32] Broken pipe"), before ++ replied around reply) := by
  rw [sendall, replied]
  split
  · rfl
  · rw [List.append_nil]
    rfl

theorem perform_popen (argv : List String) : (popen around argv).perform before =
    match around.popen argv with
    | .started pid => (.ok pid, before ++ [.spawned argv])
    | .osError text => (.error (.osError text), before)
    | .valueError text => (.error (.valueError text), before) := by
  rw [popen]
  cases around.popen argv <;> rfl

theorem perform_parse (line : List UInt8) : (parse around line).perform before =
    match reading around line with
    | .tooDeep => (.error .uncaught, before)
    | .refused text => (.error (.valueError text), before)
    | .accepted launch timeout => (.ok (launch, timeout), before) := by
  rw [parse, perform_bind, loads, reading]
  by_cases deep : around.tooDeep line = true
  · simp only [if_pos deep]
    rfl
  · simp only [if_neg deep]
    cases around.python.loads line with
    | error fault => rfl
    | ok request =>
      simp only [perform_pure]
      cases launchOf around.python request <;> rfl

/-- `serve` tells what is started or refused, for the lines that `json.loads` can take. -/
theorem serve_eq_reading (isLine : readLine maxLine reads = .ok (some line)) (nonempty : line ≠ [])
    (shallow : around.tooDeep line = false) : serve around.python reads =
      match reading around line with
      | .tooDeep => .nothing
      | .refused text => start (.error text)
      | .accepted launch _ => start (.ok launch) := by
  have served : serve around.python reads =
      match around.python.loads line with
      | .error fault => .replied (badRequest fault.message)
      | .ok request => start (launchOf around.python request) := by
    rw [readLine] at isLine
    rw [serve]
    split at isLine
    · next isOutcome =>
      cases isLine
      rw [isOutcome]
      exact if_neg nonempty
    · next bytes isOutcome =>
      by_cases empty : bytes = []
      · rw [if_pos empty] at isLine
        cases isLine
      · rw [if_neg empty] at isLine
        cases isLine
        rw [isOutcome]
        exact if_neg nonempty
    · cases isLine
  rw [served, reading, shallow, if_neg Bool.false_ne_true]
  cases around.python.loads line with
  | error fault => rfl
  | ok request =>
    simp only
    cases launchOf around.python request <;> rfl

theorem perform_readRequest (isLine : readLine maxLine reads = .ok (some line)) (nonempty : line ≠ []) :
    (readRequest around reads).perform before =
      match reading around line with
      | .tooDeep => (.error .uncaught, before)
      | .refused text => (if around.present then .ok none else .error (.osError "[Errno 32] Broken pipe"),
          before ++ replied around (badRequest text))
      | .accepted launch timeout => (.ok (some (launch, timeout)), before) := by
  obtain ⟨byte, rest, rfl⟩ := List.exists_cons_of_ne_nil nonempty
  rw [readRequest, isLine]
  simp only [perform_tryCatch, perform_map, perform_parse]
  cases reading around (byte :: rest) with
  | tooDeep => rfl
  | refused text =>
    simp only [perform_bind, perform_sendall]
    cases around.present <;> rfl
  | accepted launch timeout => rfl

theorem perform_handleDetached (argv : List String) :
    ((handleDetached around argv).perform before).2 = before ++ detachedTrace around argv := by
  rw [handleDetached, detachedTrace]
  simp only [perform_bind, perform_tryCatch, openLog, perform_map, perform_popen]
  cases around.openFault with
  | some text =>
    simp only [perform_throw, perform_bind, perform_sendall]
    cases around.present <;> rfl
  | none =>
    simp only [perform_note]
    cases around.popen argv with
    | osError text =>
      simp only [perform_bind, perform_sendall, List.append_assoc, List.singleton_append]
      cases around.present <;> rfl
    | valueError text => rfl
    | started pid =>
      simp only [perform_bind, reap, List.append_assoc, List.singleton_append]
      cases around.reaps with
      | false => rfl
      | true =>
        simp only [if_true, perform_pure, perform_sendall, List.append_assoc, List.cons_append, List.nil_append]
        rfl

theorem perform_handleWaiting (launch : Launch) (timeout : Json) :
    ((handleWaiting around launch timeout).perform before).2 = before ++ waitingTrace around launch timeout := by
  rw [handleWaiting, waitingTrace]
  simp only [perform_bind, perform_tryCatch, perform_map, perform_popen]
  cases around.popen launch.argv with
  | osError text | valueError text =>
    simp only [perform_bind, perform_sendall]
    cases around.present <;> rfl
  | started pid =>
    simp only [perform_bind, communicate]
    cases around.communicate launch.stdin timeout with
    | error fault => rfl
    | ok completion =>
      simp only [perform_pure, perform_sendall, List.append_assoc, List.singleton_append]

theorem events_eq (isLine : readLine maxLine reads = .ok (some line)) (nonempty : line ≠ []) :
    events around reads = trace around line ++ [.closed] := by
  have handled : ((handleRequest around reads).perform []).2 = trace around line := by
    rw [handleRequest, perform_bind, perform_readRequest isLine nonempty, trace]
    cases reading around line with
    | tooDeep => rfl
    | refused text => cases around.present <;> rfl
    | accepted launch timeout =>
      simp only
      split
      · exact perform_handleDetached launch.argv
      · exact perform_handleWaiting launch timeout
  rw [events, serveConnection, perform_andFinally, perform_tryCatch, ← handled]
  cases (handleRequest around reads).perform [] with
  | mk result after =>
    cases result with
    | ok value => rfl
    | error fault => cases fault <;> rfl

/-! ## One answer -/

def Event.line? : Event → Option (List UInt8)
  | .sent line => some line
  | _ => none

/-- The connection is closed last, one reply line has been sent before unless the peer has vanished, and there
is no log file where no command was started. -/
structure AnswersOnce (around : Surroundings) (reads : List (List UInt8)) : Prop where
  closes : ∃ before, events around reads = before ++ [.closed] ∧ .closed ∉ before
  answers : around.present = true → ∃ reply, (events around reads).filterMap Event.line? = [replyLine around reply]
  leavesNothing : (∀ argv, .spawned argv ∉ events around reads) → ∀ path, .logged path ∉ events around reads

/-- Every exception on the way of a line meets a clause that answers it, and no log file is made in vain. -/
def Answerable (around : Surroundings) (line : List UInt8) : Prop :=
  match reading around line with
  | .tooDeep => around.present = false
  | .refused _ => True
  | .accepted launch timeout =>
    if launch.detach then
      around.openFault = none → (∃ pid, around.popen launch.argv = .started pid) ∧ (around.present = true → around.reaps = true)
    else
      around.present = true → (∃ pid, around.popen launch.argv = .started pid) →
        ∃ completion, around.communicate launch.stdin timeout = .ok completion

/-- What is asked of the events before the connection is closed. -/
structure Clean (around : Surroundings) (before : List Event) : Prop where
  unclosed : .closed ∉ before
  answers : around.present = true → ∃ reply, before.filterMap Event.line? = [replyLine around reply]
  leavesNothing : (∀ argv, .spawned argv ∉ before) → ∀ path, .logged path ∉ before

theorem answersOnce_iff (isTrace : events around reads = before ++ [.closed]) (isOpen : .closed ∉ before) :
    AnswersOnce around reads ↔ Clean around before := by
  have lines : (before ++ [Event.closed]).filterMap Event.line? = before.filterMap Event.line? := by
    rw [List.filterMap_append]
    exact List.append_nil _
  constructor
  · rintro ⟨-, answers, leavesNothing⟩
    rw [isTrace, lines] at answers
    simp only [isTrace, List.mem_append, List.mem_singleton, reduceCtorEq, or_false] at leavesNothing
    exact ⟨isOpen, answers, leavesNothing⟩
  · rintro ⟨-, answers, leavesNothing⟩
    refine ⟨⟨before, isTrace, isOpen⟩, ?_, ?_⟩
    · rw [isTrace, lines]
      exact answers
    · simp only [isTrace, List.mem_append, List.mem_singleton, reduceCtorEq, or_false]
      exact leavesNothing

theorem clean_replied (reply : Json) : Clean around (replied around reply) := by
  rw [replied]
  split
  · exact ⟨by simp, fun _ => ⟨reply, rfl⟩, by simp⟩
  · next gone => exact ⟨by simp, fun present => absurd present gone, by simp⟩

theorem clean_nil_iff : Clean around [] ↔ around.present = false := by
  constructor
  · rintro ⟨-, answers, -⟩
    by_contra present
    obtain ⟨reply, none⟩ := answers (Bool.eq_true_of_not_eq_false present)
    cases none
  · intro gone
    exact ⟨by simp, fun present => absurd present (by simp [gone]), by simp⟩

section Spawned

variable {early : List Event} {argv : List String}

/-- A command was started, so only the answer is asked for. -/
theorem clean_spawned (isOpen : .closed ∉ early) (silent : early.filterMap Event.line? = []) (reply : Json) :
    Clean around (early ++ .spawned argv :: replied around reply) := by
  obtain ⟨stillOpen, answers, -⟩ := @clean_replied around reply
  refine ⟨by simp [isOpen, stillOpen], fun present => ?_, fun nothing => absurd ?_ (nothing argv)⟩
  · obtain ⟨sent, isSent⟩ := answers present
    refine ⟨sent, ?_⟩
    rw [List.filterMap_append, silent, List.nil_append, List.filterMap_cons_none rfl, isSent]
  · exact List.mem_append_right _ List.mem_cons_self

theorem clean_unanswered_iff (isOpen : .closed ∉ early) (silent : early.filterMap Event.line? = []) :
    Clean around (early ++ [.spawned argv]) ↔ around.present = false := by
  have lines : (early ++ [Event.spawned argv]).filterMap Event.line? = [] := by
    rw [List.filterMap_append, silent]
    rfl
  constructor
  · rintro ⟨-, answers, -⟩
    by_contra present
    obtain ⟨reply, isSent⟩ := answers (Bool.eq_true_of_not_eq_false present)
    rw [lines] at isSent
    cases isSent
  · intro gone
    refine ⟨by simp [isOpen], fun present => absurd present (by simp [gone]), fun nothing => absurd ?_ (nothing argv)⟩
    exact List.mem_append_right _ List.mem_cons_self

/-- A log file without a command. -/
theorem not_clean_logged {path : String} {rest : List Event} (nothing : ∀ argv, .spawned argv ∉ rest) :
    ¬ Clean around (.logged path :: rest) := by
  rintro ⟨-, -, leavesNothing⟩
  refine leavesNothing (fun argv member => ?_) path List.mem_cons_self
  obtain here | later := List.mem_cons.1 member
  · cases here
  · exact nothing argv later

end Spawned

theorem clean_detachedTrace_iff (argv : List String) : Clean around (detachedTrace around argv) ↔
    (around.openFault = none → (∃ pid, around.popen argv = .started pid) ∧ (around.present = true → around.reaps = true)) := by
  rw [detachedTrace]
  cases around.openFault with
  | some text => exact iff_of_true (clean_replied _) nofun
  | none =>
    cases around.popen argv with
    | osError text =>
      refine iff_of_false (not_clean_logged fun other => ?_) (by simp)
      change Event.spawned other ∉ replied around _
      rw [replied]
      split <;> simp
    | valueError text => exact iff_of_false (not_clean_logged fun _ => List.not_mem_nil) (by simp)
    | started pid =>
      have isOpen : .closed ∉ [Event.logged around.logPath] := by simp
      cases around.reaps with
      | true => exact iff_of_true (@clean_spawned around _ argv isOpen rfl _) (by simp)
      | false =>
        refine (@clean_unanswered_iff around _ argv isOpen rfl).trans ?_
        simp

theorem clean_waitingTrace_iff (launch : Launch) (timeout : Json) : Clean around (waitingTrace around launch timeout) ↔
    (around.present = true → (∃ pid, around.popen launch.argv = .started pid) →
      ∃ completion, around.communicate launch.stdin timeout = .ok completion) := by
  rw [waitingTrace]
  cases around.popen launch.argv with
  | osError text | valueError text => exact iff_of_true (clean_replied _) (by simp)
  | started pid =>
    cases around.communicate launch.stdin timeout with
    | ok completion =>
      exact iff_of_true (@clean_spawned around [] launch.argv List.not_mem_nil rfl _) (by simp)
    | error fault =>
      refine (@clean_unanswered_iff around [] launch.argv List.not_mem_nil rfl).trans ?_
      simp

theorem clean_trace_iff (line : List UInt8) : Clean around (trace around line) ↔ Answerable around line := by
  rw [trace, Answerable]
  cases reading around line with
  | tooDeep => exact clean_nil_iff
  | refused text => exact iff_of_true (clean_replied _) trivial
  | accepted launch timeout =>
    simp only
    split
    · exact clean_detachedTrace_iff launch.argv
    · exact clean_waitingTrace_iff launch timeout

theorem closed_not_mem_trace (line : List UInt8) : .closed ∉ trace around line := by
  have replies : ∀ reply, .closed ∉ replied around reply := fun reply => (clean_replied reply).unclosed
  rw [trace]
  cases reading around line with
  | tooDeep => exact List.not_mem_nil
  | refused text => exact replies _
  | accepted launch timeout =>
    simp only [detachedTrace, waitingTrace]
    split
    · split
      · exact replies _
      · split <;> simp [replies]
    · split
      · split <;> simp [replies]
      · exact replies _
      · exact replies _

/-- A line is answered once and leaves no file in vain exactly if no step raises what its clause leaves out. -/
theorem one_answer_iff (isLine : readLine maxLine reads = .ok (some line)) (nonempty : line ≠ []) :
    AnswersOnce around reads ↔ Answerable around line :=
  (answersOnce_iff (events_eq isLine nonempty) (closed_not_mem_trace line)).trans (clean_trace_iff line)

/-! ## Two machines -/

def nulRequest : Json := .object [("argv", .array [.string (String.singleton (Char.ofNat 0))]), ("detach", .bool true)]

/-- The request as it is sent, the NUL as an escape. -/
def nulLine : List UInt8 :=
  "\x7b\"argv\": [\"\\u0000\"], \"detach\": true\x7d".toList.flatMap String.utf8EncodeChar

/-- A machine that starts every command whose argv it can encode. -/
def machine (python : Python) : Surroundings where
  python := python
  tooDeep _ := false
  logPath := "/tmp/agentfork-exec-0.log"
  openFault := none
  popen argv := if argv.any fun arg => Char.ofNat 0 ∈ arg.toList then .valueError "embedded null byte" else .started 7
  reaps := true
  communicate _ _ := .ok ⟨0, [], [], false⟩
  present := true

def nulPython : Python := { plainPython [] with
  loads := fun line => if line = nulLine then .ok nulRequest else .error (.jsonDecodeError "Expecting value") }

def tailRequest : Json := .object [("argv", .array [.string "tail"]), ("detach", .bool true)]

/-- A command that can be started is answered with its pid and its log. -/
theorem tail_is_answered :
    AnswersOnce (machine (plainPython [tailRequest])) [(plainPython [tailRequest]).dumps tailRequest, [newline]] := by
  have isLine : readLine maxLine [(plainPython [tailRequest]).dumps tailRequest, [newline]] =
      .ok (some ((plainPython [tailRequest]).dumps tailRequest)) := by rfl
  have isReading : reading (machine (plainPython [tailRequest])) ((plainPython [tailRequest]).dumps tailRequest) =
      .accepted ⟨["tail"], none, none, true⟩ .null := by rfl
  refine (one_answer_iff isLine (by decide)).2 ?_
  rw [Answerable, isReading]
  exact fun _ => ⟨⟨7, rfl⟩, fun _ => rfl⟩

theorem readLine_nulLine : readLine maxLine [nulLine, [newline]] = .ok (some nulLine) := by rfl

theorem reading_nulLine : reading (machine nulPython) nulLine =
    .accepted ⟨[String.singleton (Char.ofNat 0)], none, none, true⟩ .null := by rfl

/-- The ValueError of a NUL is caught where the agent waits, not where it detaches: no answer, and an empty log. -/
theorem nul_is_not_answered : readLine maxLine [nulLine, [newline]] = .ok (some nulLine) ∧ nulLine ≠ [] ∧
    events (machine nulPython) [nulLine, [newline]] = [.logged "/tmp/agentfork-exec-0.log", .closed] ∧
    ¬ AnswersOnce (machine nulPython) [nulLine, [newline]] := by
  have isEvents : events (machine nulPython) [nulLine, [newline]] = [.logged "/tmp/agentfork-exec-0.log", .closed] := by
    rw [events_eq readLine_nulLine (by decide), trace, reading_nulLine]
    rfl
  refine ⟨readLine_nulLine, by decide, isEvents, fun answered => ?_⟩
  obtain ⟨reply, isSent⟩ := answered.answers rfl
  rw [isEvents] at isSent
  cases isSent

end Agentfork.Firecracker.GuestAgent
